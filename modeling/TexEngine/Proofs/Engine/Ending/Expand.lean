/-
  TexEngine.Proofs.Engine.Ending.Expand

  Expandable primitives end, and leave an input that is lighter than the one in front of
  them.  Their own names pay for what they add: the backslash for the frozen \relax that
  may stand in front of the input now and could not before, and the letters n for texts
  and line ends.
-/
import TexEngine.Proofs.Engine.Ending.Branch
import TexEngine.Proofs.Engine.ExpansionFrame

namespace TexEngine

open Eng Gauge

/-! ## States -/

theorem Machine.weight_feed_le (m : Machine) (ts : TokenList) :
    (m.feed ts).weight ≤ Gauge.weight.tokens ts + m.burden + 16 := by
  have hcredit := (m.feed ts).credit_le
  rw [weight_feed]
  omega

theorem Machine.weight_le_burden (m : Machine) : m.weight ≤ m.burden + 16 := by
  have hcredit := m.credit_le
  unfold weight
  omega

/-- Characters in front of the input leave the credit as it is. -/
theorem Machine.weight_feed_chars (m : Machine) {ts : TokenList}
    (hts : ∀ t ∈ ts, t.isCommand = false) :
    (m.feed ts).weight = Gauge.weight.tokens ts + m.weight := by
  induction ts with
  | nil =>
    have hsame := m.cost_feed_nil.le
    have hsame' := m.cost_feed_nil.ge
    have hle := weight_le_of_cost_le hsame
    have hle' := weight_le_of_cost_le hsame'
    rw [tokens_nil]
    omega
  | cons t ts ih =>
    have hfirst := (m.feed ts).weight_feed_char (hts t List.mem_cons_self)
    rw [feed_feed, List.singleton_append] at hfirst
    rw [hfirst, ih fun u hu => hts u (List.mem_cons_of_mem t hu), tokens_cons]
    omega

/-- A text consists of characters. -/
theorem TokenList.isCommand_ofText (s : String) :
    ∀ t ∈ TokenList.ofText s, t.isCommand = false := by
  intro t ht
  obtain ⟨c, -, rfl⟩ := List.mem_map.mp ht
  unfold TokenList.ofChar
  split <;> rfl

/-- A control sequence that becomes \relax leaves everything else as it is. -/
theorem Env.Pristine.assign_relax {env : Env Meaning} (h : env.Pristine) (name : String) :
    (env.assign (.code name (some Meaning.relax)) false).Pristine := by
  have hcode := code?_assign_code env name (some Meaning.relax)
  rw [assign_code_eq] at hcode ⊢
  refine ⟨h.lexicon, fun name' μ hμ => ?_, h.active, h.escape, h.dimen, h.glue, h.toks, h.font⟩
  rw [hcode] at hμ
  split at hμ
  · exact .inr (Option.some.inj hμ).symm
  · exact h.code name' μ hμ

namespace Halts

variable {β : Type} {m : Machine} {R : β → Machine → Prop}

/-- Putting tokens in front of the input at the end of an expansion. -/
theorem push_le {ts : TokenList} {k : Nat} (hk : weight.tokens ts + m.burden + 16 ≤ k) :
    Halts (fun _ => Eng.push ts) (fun _ => Eng.push ts) m fun _ m' => m'.weight ≤ k := by
  refine .push_end fun m' hm' => ?_
  exact (Machine.weight_le_of_cost_le hm'.le).trans ((m.weight_feed_le ts).trans hk)

/-- Putting characters in front of the input at the end of an expansion. -/
theorem push_text_le (s : String) {k : Nat} (hk : weight.text s + m.weight ≤ k) :
    Halts (fun _ => Eng.push (TokenList.ofText s)) (fun _ => Eng.push (TokenList.ofText s)) m
      fun _ m' => m'.weight ≤ k := by
  refine .push_end fun m' hm' => (Machine.weight_le_of_cost_le hm'.le).trans ?_
  rwa [m.weight_feed_chars (TokenList.isCommand_ofText s), weight_ofText]

/-- A token that has to be there, as it stands in the input. -/
theorem required_token {kind : ErrorKind} {details : List String} {F G : Nat → Token → Eng β}
    (h : ∀ t m', m.Takes t m' → Halts (F · t) (G · t) m' R) :
    Halts (fun n => token? >>= fun t? => Eng.expect t? kind details >>= F n)
      (fun n => token? >>= fun t? => Eng.expect t? kind details >>= G n) m R :=
  .token (fun _ _ => .expect fun _ ht => nomatch ht) fun t m' _ htakes =>
    .expect fun _ hu => Option.some.inj hu ▸ h t m' htakes

theorem checkInputDepth {F G : Nat → Unit → Eng β} (h : Halts (F · ()) (G · ()) m R) :
    Halts (fun n => Eng.checkInputDepth >>= F n) (fun n => Eng.checkInputDepth >>= G n) m R := by
  by_cases hdepth : m.input.depth ≥ m.limits.inputDepth
  · have hfail : Eng.checkInputDepth m =
        .error (.tex { kind := .recursionTooDeep, details := ["input nesting"] }) m := by
      unfold Eng.checkInputDepth
      rw [bind_of_ok (get_apply m), if_pos hdepth]
      rfl
    exact .error_bind hfail (by simp)
  · have hok : Eng.checkInputDepth m = .ok () m := by
      unfold Eng.checkInputDepth
      rw [bind_of_ok (get_apply m), if_neg hdepth]
      rfl
    exact .look hok h

end Halts

namespace Expander

variable {strict : Bool} {x y : Nat → Expander}

/-! ## Expansion of other tokens -/

/-- What `expandAfter` does with the second token, once its meaning is known. -/
def expandSecond (x : Expander) (first second : Token) (μ? : Option Meaning) : Eng Unit := do
  match μ?.filter (·.isExpandable) with
  | some μ =>
    x.expand μ second
    push [first]
  | none => push [first, second]

theorem expandAfter_halts (h : Partners strict x y) (m : Machine) :
    Halts (fun n => (x n).expandAfter) (fun n => (y n).expandAfter) m fun _ m' =>
      m'.weight ≤ m.burden + 32 := by
  refine .required_token fun first m₁ hfirst => .required_token fun second m₂ hsecond => ?_
  have hburden₁ := hfirst.burden
  have hburden₂ := hsecond.burden
  have hplain : Halts (fun _ => push [first, second]) (fun _ => push [first, second]) m₂
      fun _ m' => m'.weight ≤ m.burden + 32 := by
    refine .push_le ?_
    simp only [tokens_cons, tokens_nil]
    omega
  -- Only the second token is expanded, and only if its meaning asks for it; otherwise both tokens
  -- go back as they were.
  have hrest : ∀ μ? : Option Meaning,
      (∀ μ ∈ μ?, second.isCommand = true ∧ meaningIn m₂.env second = some μ) →
      Halts (fun n => (x n).expandSecond first second μ?)
        (fun n => (y n).expandSecond first second μ?) m₂
        fun _ m' => m'.weight ≤ m.burden + 32 := by
    intro μ? hμ?
    unfold expandSecond
    split
    · rename_i μ hμ
      rw [Option.filter_eq_some_iff] at hμ
      obtain ⟨hcommand, hmeaning⟩ := hμ? μ hμ.1
      have hrelax : μ ≠ Meaning.relax := by
        rintro rfl
        simp [Meaning.relax, Meaning.isExpandable] at hμ
      obtain ⟨hsecond, hmeaning⟩ := meaning?_of_meaningIn hmeaning hrelax
      refine (h.expand hmeaning hμ.2 hsecond).bind fun _ m₃ _ hexpanded => .push_le ?_
      simp only [tokens_cons, tokens_nil]
      -- The first token goes in front of the expansion, and of a token that is given back.
      cases hexpanded with
      | lighter hlt =>
        rw [Machine.weight_feed_command m₂ hcommand hsecond, Machine.weight] at hlt
        omega
      | givenBack _ _ hm₃ =>
        rw [hm₃, Machine.burden_feed, tokens_cons, tokens_cons, tokens_nil, weight_frozenRelax]
        omega
    · exact hplain
  refine .look (isFrozen_apply m₂) ?_
  split
  · rename_i hlook
    refine .look (meaning?_apply second m₂) (hrest _ fun μ hμ => ⟨?_, hμ⟩)
    exact (Bool.and_eq_true_iff.mp hlook).1
  · exact hrest none fun μ hμ => by contradiction

/-- Marking a token leaves it where it is. -/
theorem markNext_halts (m : Machine) :
    Halts (fun _ => markNext) (fun _ => markNext) m fun _ m' => m'.weight ≤ m.burden + 16 := by
  refine .required_token fun t m₁ htakes => ?_
  have hburden := htakes.burden
  have hback : ∀ {m₂ : Machine}, m₂.burden = m₁.burden →
      Halts (fun _ => push [t]) (fun _ => push [t]) m₂ fun _ m' => m'.weight ≤ m.burden + 16 := by
    intro m₂ hm₂
    refine .push_le ?_
    simp only [tokens_cons, tokens_nil]
    omega
  split
  · refine .look (meaning?_apply t m₁) ?_
    split
    · exact .modify _ (fun hm => .of_env hm rfl rfl) (hback rfl)
    · exact hback rfl
  · exact hback rfl

/-! ## Names and texts -/

theorem expandCsname_halts (h : Partners strict x y) (m : Machine) :
    Halts (fun n => (x n).expandCsname) (fun n => (y n).expandCsname) m fun _ m' =>
      m'.weight ≤ m.burden + 32 := by
  refine (scanCsname_halts h m).bind fun name m₁ _ hname => ?_
  have hback : ∀ {m₂ : Machine}, m₂.burden = m₁.burden →
      Halts (fun _ => push [.cs name]) (fun _ => push [.cs name]) m₂ fun _ m' =>
        m'.weight ≤ m.burden + 32 := by
    intro m₂ hm₂
    refine .push_le ?_
    simp only [tokens_cons, tokens_nil, weight_cs]
    have hburden := hname.1
    omega
  refine .look (env_apply m₁) ?_
  split
  · refine .modify _ (fun hm => ⟨⟨hm.env.assign_relax name, hm.job⟩, ?_⟩) (hback rfl)
    dsimp only
    rw [Env.conditionals_assign]
    exact .refl _
  · exact hback rfl

theorem stringTokens_weight {m : Machine} (hm : m.Pristine) (t : Token) :
    ∃ ts, stringTokens t m = .ok ts m ∧ weight.tokens ts ≤ weight.token t := by
  unfold stringTokens
  split
  · refine ⟨TokenList.ofText (t.format m.env.escapeChar), rfl, ?_⟩
    rw [weight_ofText, hm.env.escape, token_weight]
  · split
    · exact ⟨[.space], rfl, Nat.zero_le _⟩
    · refine ⟨[.other t.code], rfl, ?_⟩
      have hcode := t.weight_code_le
      rw [tokens_cons, tokens_nil, Token.other, weight_char]
      omega

/-- The longest description is that of an alignment tab. -/
theorem weight_description (t : Token) : weight.text t.description ≤ weight.token t + 18 := by
  have hkind : ∀ k : Catcode, weight.text k.description ≤ 18 := by
    intro k
    cases k with
    | unassigned n =>
      show weight.text "the character " ≤ 18
      decide
    | _ => decide
  have hcode := t.weight_code_le
  have hk := hkind t.cat
  rw [Token.description, text_append, weight_text_charText]
  omega

/-- \meaning has not much more to say of a token than its name. -/
theorem weight_meaningIn {m : Machine} (hm : m.Pristine) {t : Token} {μ : Meaning}
    (hμ : meaningIn m.env t = some μ) :
    weight.text (μ.description (some Token.backslash)) ≤ weight.token t + 18 := by
  have hrelax : weight.text (Meaning.relax.description (some Token.backslash)) = 16 := by decide
  have hname : ∀ name, weight.text (Token.escapeText (some Token.backslash) ++ name) =
      weight.token (.cs name) := fun _ => rfl
  -- Three kinds of tokens have a meaning in a pristine machine: the frozen \relax, a primitive
  -- under its own name, and a name that \csname has made \relax.
  unfold meaningIn at hμ
  split at hμ
  · rename_i ht
    rw [← Option.some.inj hμ, hrelax, ht, weight_frozenRelax]
    omega
  · rename_i ht
    obtain ⟨⟨name, rfl⟩, hcases⟩ := hm.env.meaning?_cases hμ ht
    rcases hcases with ⟨hcs, hmem⟩ | rfl
    · rw [hcs]
      cases μ with
      | defined d => exact absurd hmem (Meaning.defined_not_mem_primitives d)
      | charToken u => simp [Meaning.primitives] at hmem
      | charDef c => simp [Meaning.primitives] at hmem
      | font f =>
        have hf := hm.env.eq_null_of_meaningIn (f := f) ((if_neg ht).trans hμ)
        rw [hf]
        decide
      | _ => exact (hname _).le.trans (Nat.le_add_right _ 18)
    · rw [hrelax, weight_cs]
      omega

theorem describe_weight {m : Machine} (hm : m.Pristine) (t : Token) :
    ∃ s, describe t m = .ok s m ∧ weight.text s ≤ weight.token t + 18 := by
  unfold describe
  split
  · rw [bind_of_ok (meaning?_apply t m)]
    cases hμ : meaningIn m.env t with
    | none =>
      refine ⟨"undefined", rfl, ?_⟩
      have hundefined : weight.text "undefined" = 18 := by decide
      omega
    | some μ =>
      refine ⟨μ.description m.env.escapeChar, rfl, ?_⟩
      rw [hm.env.escape]
      exact weight_meaningIn hm hμ
  · exact ⟨t.description, rfl, weight_description t⟩

theorem expandFontName_halts (h : Partners strict x y) (m : Machine) :
    Halts (fun n => (x n).expandFontName) (fun n => (y n).expandFontName) m fun _ m' =>
      m'.weight ≤ m.burden + 32 := by
  refine (nextNonSpace?_halts h m).required fun t m₁ hcost => .of_pristine fun hm₁ => ?_
  -- Of all fonts, a pristine machine knows the null font only, by name or as the current one.
  have hname : ∀ μ : Meaning, meaningIn m₁.env t = some μ → μ ≠ Meaning.relax →
      Halts (fun _ => push (TokenList.ofText Font.null.fullName))
        (fun _ => push (TokenList.ofText Font.null.fullName)) m₁ fun _ m' =>
          m'.weight ≤ m.burden + 32 := by
    intro μ hμ hrelax
    have hburden := Machine.burden_le_of_name
      ((hm₁.env.eq_cs_of_meaningIn hμ hrelax).1 ▸ hcost)
    have hnull : weight.text Font.null.fullName = 18 := by decide
    refine .push_le ?_
    rw [weight_ofText]
    omega
  refine .look (meaning?_apply t m₁) ?_
  split
  · rename_i f hf
    rw [hm₁.env.eq_null_of_meaningIn hf]
    exact hname _ hf (by simp [Meaning.relax])
  · rename_i hfont
    refine .look (env_apply m₁) ?_
    rw [hm₁.env.font]
    exact hname _ hfont (by simp [Meaning.relax])
  · exact .refuse _ _ _ _

/-! ## Texts that are read again -/

theorem weight_rescannedText (ts : TokenList) :
    weight.text (rescannedText (some Token.backslash) ts) = weight.tokens ts := by
  rw [rescannedText, text_join, List.map_map]
  refine congrArg List.sum (List.map_congr_left fun t _ => ?_)
  rw [Function.comp_apply]
  split
  · rw [text_append]
    rfl
  · rfl

/-- The line end of a text that is read again is what it weighs more than its tokens. -/
theorem expandScanTokens_halts (h : Partners true x y) (m : Machine) :
    Halts (fun n => (x n).expandScanTokens) (fun n => (y n).expandScanTokens) m fun _ m' =>
      m'.weight ≤ m.burden + 48 := by
  refine (scanLeftBrace_halts h m).bind fun _ m₁ _ hbrace => ?_
  refine (scanBalanced_halts h.fuel_left h.fuel_right m₁).bind fun ts m₂ _ hts => ?_
  refine .checkInputDepth (.look (env_apply m₂) (.of_pristine fun hm₂ => ?_))
  obtain ⟨es, hopen⟩ :=
    pushText_apply (rescannedText m₂.env.escapeChar ts) "scantokens" m₂
  refine .ok hopen (fun hm => .of_env hm rfl rfl) ?_
  -- The new stream holds what the tokens weigh, and the character that ends its line.
  have htext := (weight_fits hm₂.env.lexicon).source_pushText_le m₂.input
    (rescannedText m₂.env.escapeChar ts) "scantokens"
  rw [hm₂.env.escape, weight_rescannedText] at htext
  rw [hm₂.env.escape] at hopen ⊢
  have hline : weight.code 13 = 16 := rfl
  have hopened : ∀ m₃ : Machine, m₃.input = m₂.input.pushText
      (rescannedText (some Token.backslash) ts) "scantokens" →
        m₃.burden ≤ weight.tokens ts + 16 + m₂.burden := by
    intro m₃ hm₃
    rwa [Machine.burden, hm₃]
  have hbrace : m₁.burden ≤ m.weight :=
    (Nat.le_add_right _ _).trans (Machine.weight_le_of_cost_le hbrace)
  have hm := m.weight_le_burden
  refine (Machine.weight_le_burden _).trans ((Nat.add_le_add_right (hopened _ rfl) 16).trans ?_)
  omega

theorem endInput_halts (m : Machine) :
    Halts (fun _ => (modify fun m => { m with input := m.input.endInput } : Eng Unit))
      (fun _ => modify fun m => { m with input := m.input.endInput }) m fun _ m' =>
        m'.weight ≤ m.burden + 16 := by
  refine .ok rfl (fun hm => .of_env hm rfl rfl) ?_
  refine (Machine.weight_le_burden _).trans_eq ?_
  rw [Machine.burden, source_endInput, Machine.burden]

/-! ## Primitives -/

/-- What \input and \scantokens read is not expanded in all circumstances; for the other
    primitives, any expansion will do. -/
theorem expandPrimitive_halts (h : Partners strict x y) {p : Expandable} (hinput : p ≠ .input)
    (hscan : p ≠ .scantokens) (t : Token) (m : Machine) :
    Halts (fun n => (x n).expandPrimitive p t) (fun n => (y n).expandPrimitive p t) m fun _ m' =>
      m'.weight < m.burden + (32 + weight.text p.name) := by
  -- The token of the primitive has been read, and pays for what its expansion adds.
  have hlight : ∀ {A B : Nat → Eng Unit} {k : Nat}, k < 32 + weight.text p.name →
      Halts A B m (fun _ m' => m'.weight ≤ m.burden + k) →
        Halts A B m fun _ m' => m'.weight < m.burden + (32 + weight.text p.name) :=
    fun hk hle => hle.mono fun _ m' _ hle => Nat.lt_of_le_of_lt hle (Nat.add_lt_add_left hk _)
  have hm := m.weight_le_burden
  cases p with
  | expandafter => exact hlight (by decide) (expandAfter_halts h m)
  | noexpand => exact hlight (k := 16) (by decide) (markNext_halts m)
  | csname => exact hlight (by decide) (expandCsname_halts h m)
  | string =>
    refine hlight (k := 16) (by decide)
      (.required_token fun t m₁ htakes => .of_pristine fun hm₁ => ?_)
    obtain ⟨ts, hts, hweight⟩ := stringTokens_weight hm₁ t
    have hburden := htakes.burden
    exact .look hts (.push_le (by omega))
  | number =>
    refine hlight (k := 16) (by decide) ((scanInteger_halts h m).bind fun v m₁ _ hcost => ?_)
    have hle := Machine.weight_le_of_cost_le hcost
    refine .push_text_le _ ?_
    rw [weight_text_count]
    omega
  | romannumeral =>
    refine hlight (k := 16) (by decide) ((scanInteger_halts h m).bind fun v m₁ _ hcost => ?_)
    have hle := Machine.weight_le_of_cost_le hcost
    refine .push_text_le _ ?_
    rw [weight_text_roman]
    omega
  | the =>
    refine hlight (k := 31) (by decide) ((theTokens_halts h m).bind fun ts m₁ _ hts => ?_)
    have hburden := hts.1
    exact .push_le (by omega)
  | meaning =>
    refine hlight (k := 34) (by decide)
      (.required_token fun t m₁ htakes => .of_pristine fun hm₁ => ?_)
    obtain ⟨s, hs, hweight⟩ := describe_weight hm₁ t
    have hburden := htakes.burden
    refine .look hs (.push_le ?_)
    rw [weight_ofText]
    omega
  | jobname =>
    refine hlight (k := 16) (by decide) (.of_pristine fun hm => .look (get_apply m) ?_)
    have hname : weight.text Machine.defaultJobName = 0 := by decide
    refine .push_text_le _ ?_
    rw [hm.job, hname]
    omega
  | fontname => exact hlight (by decide) (expandFontName_halts h m)
  | input => contradiction
  | endinput => exact hlight (k := 16) (by decide) (endInput_halts m)
  | scantokens => contradiction

end Expander

end TexEngine
