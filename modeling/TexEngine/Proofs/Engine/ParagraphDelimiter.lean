/-
  TexEngine.Proofs.Engine.ParagraphDelimiter

  Delimiters with a \par.  A token is first asked whether it may stand in an argument, and
  only then compared with the delimiters.  So a \par that belongs to the delimiters is found
  by macros that take one in their arguments, which are the long ones; in the call of any
  other macro it is refused like a \par of the argument, and such a call never succeeds.

  `delimitedArgument_par` says both.  That the delimiters cannot be found any earlier is a
  matter of \par alone, which does not occur in the argument (`DelimitedAt.length_le_of_mem`).
-/
import TexEngine.Proofs.Engine.DelimitedArgument

namespace TexEngine

open Eng

/-- Delimiters with a token that does not occur in a list cannot begin in it. -/
theorem DelimitedAt.length_le_of_mem {arg delims : TokenList} {u : Token} {k : Nat}
    (hu : u ∈ delims) (harg : u ∉ arg) (h : DelimitedAt delims (arg ++ delims) k) :
    arg.length ≤ k := by
  obtain ⟨ds₁, ds₂, rfl, hfirst⟩ := List.eq_append_cons_of_mem hu
  apply Nat.le_of_not_lt
  intro hlt
  -- The first such token of the delimiters would stand in the list, or in front of the
  -- first one of the delimiters behind it.
  have hget : (arg ++ (ds₁ ++ u :: ds₂))[k + ds₁.length]? = some u := by
    obtain ⟨vs, hvs⟩ := h.2
    rw [← List.getElem?_drop, ← hvs, List.append_assoc, List.getElem?_append_right (Nat.le_refl _),
      Nat.sub_self]
    rfl
  rw [← List.append_assoc, List.getElem?_append_left (by rw [List.length_append]; omega)] at hget
  rcases List.mem_append.mp (List.mem_of_getElem? hget) with hmem | hmem
  · exact harg hmem
  · exact hfirst hmem

/-- Such delimiters stand behind the list, and nowhere in front of that. -/
theorem not_delimitedAt_of_mem {arg ds : TokenList} {l u : Token} (hu : u ∈ ds ++ [l])
    (harg : u ∉ arg) (k : Nat) : ¬ DelimitedAt (ds ++ [l]) (arg ++ ds) k := by
  intro hk
  have hne : ds ++ [l] ≠ [] := by simp
  have hle := hk.length_le hne
  have hwhole : DelimitedAt (ds ++ [l]) (arg ++ (ds ++ [l])) k := by
    rw [← List.append_assoc]
    exact hk.append hne [l]
  have hbehind := hwhole.length_le_of_mem hu harg
  simp only [List.length_append, List.length_singleton] at hle
  omega

namespace MacroDef

variable {d : MacroDef} {m m₁ m' : Machine}

/-- A \par is refused by macros that are not long, and put back. -/
theorem checkArgument_par (hshort : d.isLong = false) (call : Token) (m : Machine) :
    d.checkArgument call (.cs "par") m =
      .error (.tex { kind := .runawayArgument, token := some call,
                     details := ["paragraph ended before", call.text, "was complete"] })
        (m.feed [.cs "par"]) := by
  have hpush : push [.cs "par"] m = .ok () (m.feed [.cs "par"]) := push_apply m (by simp)
  have hpar : (!d.isLong && (Token.cs "par").isCs && (Token.cs "par").name == "par") = true := by
    rw [hshort]
    rfl
  unfold checkArgument
  rw [if_neg (by decide), if_pos hpar]
  dsimp only
  rw [bind_of_ok hpush]
  rfl

/-- The delimiters are not asked first. -/
theorem delimitedStep_par (hshort : d.isLong = false) (call : Token) (delims : TokenList)
    (a : Delimited) (h : token? m = .ok (some (.cs "par")) m₁) :
    d.delimitedStep call delims a m =
      .error (.tex { kind := .runawayArgument, token := some call,
                     details := ["paragraph ended before", call.text, "was complete"] })
        (m₁.feed [.cs "par"]) := by
  unfold delimitedStep
  rw [bind_of_ok h, bind_of_ok (expect_some ..), bind_of_error (checkArgument_par hshort call m₁)]

/-- A \par behind tokens that do not hold the delimiters ends the call. -/
theorem delimitedArgument_of_par (hshort : d.isLong = false) (call : Token)
    {ds read : TokenList} {l : Token} (hbraces : PatternBraces (ds ++ [l]))
    (hyields : m.Yields (read ++ [.cs "par"]) m₁) (hdepth : braceDepthAfter? 0 read = some 0)
    (hnone : ∀ k, ¬ DelimitedAt (ds ++ [l]) read k) (hacc : ∀ t ∈ read, d.Accepts m.env t)
    {fuel : Nat} (hfuel : read.length < fuel) :
    delimitedArgument fuel d call (ds ++ [l]) m =
      .error (.tex { kind := .runawayArgument, token := some call,
                     details := ["paragraph ended before", call.text, "was complete"] })
        (m₁.feed [.cs "par"]) := by
  obtain ⟨m₂, hfront, hlast⟩ := hyields.exists_of_append
  obtain ⟨m₃, hpar, hend⟩ := hlast.exists_of_cons
  obtain rfl : m₁ = m₃ := by
    cases hend
    rfl
  obtain ⟨us, ws, a, n, -, -, -, hloop⟩ :=
    delimitedArgument_of_read call hbraces hfront hacc hdepth hnone hfuel
  rw [hloop]
  apply bind_of_error
  rw [iterate, bind_of_error (delimitedStep_par hshort call _ a hpar)]

/-- An argument without a \par, in front of delimiters with one.  If all of the delimiters may
    stand in an argument, which takes a long macro, the argument ends in front of them, and
    the tokens behind them are left.  If the macro is not long, the \par of the delimiters
    ends the call with an error. -/
theorem delimitedArgument_par (d : MacroDef) (call : Token) {arg delims : TokenList}
    (hbraces : PatternBraces delims) (hpar : .cs "par" ∈ delims) (harg : Balanced arg)
    (hnopar : .cs "par" ∉ arg) (hyields : m.Yields (arg ++ delims) m')
    (houter : ∀ t ∈ arg, ∀ o, meaningIn m.env t = some (.defined o) → o.isOuter = false)
    {fuel : Nat} (hfuel : (arg ++ delims).length < fuel) :
    ((∀ t ∈ delims, d.Accepts m.env t) →
      ∃ value, delimitedArgument fuel d call delims m = .ok value m' ∧
        (∀ g : Braced, arg = g.tokens → value = g.inner) ∧
        ((∀ g : Braced, arg ≠ g.tokens) → value = arg)) ∧
    (d.isLong = false → ∀ before behind, delims = before ++ .cs "par" :: behind →
      (∀ t ∈ before, d.Accepts m.env t) →
      ∃ m₁, m.Yields (arg ++ before ++ [.cs "par"]) m₁ ∧
        delimitedArgument fuel d call delims m =
          .error (.tex { kind := .runawayArgument, token := some call,
                         details := ["paragraph ended before", call.text, "was complete"] })
            (m₁.feed [.cs "par"])) := by
  obtain ⟨ds, l, rfl⟩ : ∃ ds l, delims = ds ++ [l] :=
    ⟨_, _, (List.dropLast_concat_getLast (List.ne_nil_of_mem hpar)).symm⟩
  have haccept : ∀ t ∈ arg, d.Accepts m.env t := by
    intro t ht
    refine ⟨fun _ heq => ?_, houter t ht⟩
    rw [heq] at ht
    exact hnopar ht
  have hnone : ∀ k, ¬ DelimitedAt (ds ++ [l]) (arg ++ ds) k := not_delimitedAt_of_mem hpar hnopar
  constructor
  · intro hdelims
    have hall : ∀ t ∈ arg ++ (ds ++ [l]), d.Accepts m.env t := by
      intro t ht
      rcases List.mem_append.mp ht with ht | ht
      · exact haccept t ht
      · exact hdelims t ht
    rw [← List.append_assoc, List.length_append, List.length_singleton] at hfuel
    refine ⟨_, delimitedArgument_of_first call hbraces harg hnone hyields hall (by omega), ?_,
      harg.stripGroup_of_forall_ne⟩
    intro g hg
    rw [hg, g.stripGroup_tokens]
  · -- A token is checked before it is compared with the delimiters, so the \par ends the call.
    intro hshort before behind hsplit hbefore
    have hlength := congrArg List.length hsplit
    simp only [List.length_append, List.length_cons, List.length_nil] at hlength
    obtain ⟨xs, rfl⟩ : before <+: ds :=
      List.prefix_of_prefix_length_le ⟨.cs "par" :: behind, hsplit.symm⟩
        (List.prefix_append ds [l]) (by omega)
    rw [hsplit, List.append_cons, ← List.append_assoc, ← List.append_assoc] at hyields
    obtain ⟨m₁, hread, -⟩ := hyields.exists_of_append
    refine ⟨m₁, hread, delimitedArgument_of_par hshort call hbraces hread ?_ ?_ ?_ ?_⟩
    · -- The tokens in front of the \par are no braces: a brace would be the last delimiter.
      have hbraces' : PatternBraces (before ++ .cs "par" :: behind) := hsplit ▸ hbraces
      rw [braceDepthAfter?_append, harg.braceDepthAfter?, Option.bind_some]
      exact braceDepthAfter?_of_not_brace (fun t ht => ⟨hbraces'.not_open t ht,
        hbraces'.no_close t (List.mem_append_left _ ht)⟩) 0
    · intro k hk
      apply hnone k
      rw [← List.append_assoc]
      exact hk.append (by simp) xs
    · intro t ht
      rcases List.mem_append.mp ht with ht | ht
      · exact haccept t ht
      · exact hbefore t ht
    · simp only [List.length_append, List.length_singleton] at hfuel ⊢
      omega

/-- A long macro with the delimiters .\par, called as in {x}.\par y. -/
theorem delimitedArgument_par_long :
    ∃ m₁, delimitedArgument 20 { isLong := true } (.cs "m") [.other 46, .cs "par"]
        (Machine.feed { env := {} } [.char 123 .beginGroup, .letter 120, .char 125 .endGroup,
          .other 46, .cs "par", .letter 121]) = .ok [.letter 120] m₁ ∧
      token? m₁ = .ok (some (.letter 121)) (Machine.feed { env := {} } []) := by
  let g : Braced := ⟨123, 125, [.letter 120], .token rfl rfl .nil⟩
  let delims : TokenList := [.other 46, .cs "par"]
  have hread : (Machine.feed { env := {} } (g.tokens ++ delims ++ [.letter 121])).Yields
      (g.tokens ++ delims) (Machine.feed { env := {} } [.letter 121]) :=
    Machine.Yields.of_feed { env := {} } (g.tokens ++ delims) [.letter 121]
  have hplain : ∀ t ∈ g.tokens ++ delims, meaningIn {} t = none := by decide
  have hacc : ∀ t ∈ g.tokens ++ delims, ∀ o, meaningIn {} t = some (.defined o) →
      o.isOuter = false := by
    intro t ht o ho
    rw [hplain t ht] at ho
    contradiction
  obtain ⟨value, hvalue, hgroup, -⟩ :=
    (delimitedArgument_par { isLong := true } (.cs "m") (patternBraces_of_not_brace (by decide))
      (by decide : Token.cs "par" ∈ delims) (.group 123 125 g.balanced .nil) (by decide) hread
      (fun t ht => hacc t (List.mem_append_left _ ht)) (by decide : _ < 20)).1
      fun t ht => ⟨fun hshort => by contradiction, hacc t (List.mem_append_right _ ht)⟩
  have hinner : value = [.letter 120] := hgroup g rfl
  exact ⟨_, hvalue.trans (by rw [hinner]), rfl⟩

/-- A macro that is not long has no argument in front of \par: of x\par y, the x and the \par
    are read, and the \par is put back with an error. -/
theorem delimitedArgument_par_refused :
    let m := Machine.feed { env := {} } [.letter 120, .cs "par", .letter 121]
    (∀ value m', delimitedArgument 20 { isLong := false } (.cs "m") [.cs "par"] m ≠ .ok value m') ∧
      delimitedArgument 20 { isLong := false } (.cs "m") [.cs "par"] m =
        .error (.tex { kind := .runawayArgument, token := some (.cs "m"),
                       details := ["paragraph ended before", "\\m", "was complete"] })
          (Machine.feed { env := {} } [.cs "par", .letter 121]) := by
  intro m
  have herror : delimitedArgument 20 { isLong := false } (.cs "m") [.cs "par"] m =
      .error (.tex { kind := .runawayArgument, token := some (.cs "m"),
                     details := ["paragraph ended before", "\\m", "was complete"] })
        (Machine.feed { env := {} } [.cs "par", .letter 121]) := by
    rfl
  refine ⟨?_, herror⟩
  intro value m'
  rw [herror]
  exact nofun

end MacroDef

end TexEngine
