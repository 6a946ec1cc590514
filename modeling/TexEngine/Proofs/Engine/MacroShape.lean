/-
  TexEngine.Proofs.Engine.MacroShape

  The shape of macros.  The parameters of a pattern are numbered in their order, and a
  body refers to no others, so that a call, which reads one argument for each parameter
  of the pattern, has an argument for each reference.
-/
import TexEngine.Proofs.Engine.Braces
import TexEngine.Proofs.Engine.MacroCall
import TexEngine.Proofs.Input.ParameterFree

namespace TexEngine

open Eng

/-! ## Texts -/

/-- What may be read again: the list is balanced and without parameters. -/
structure TokenList.Regular (ts : TokenList) : Prop where
  parameterFree : ts.ParameterFree
  balanced : Balanced ts

theorem TokenList.regular_nil : TokenList.Regular [] :=
  ⟨parameterFree_nil, .nil⟩

theorem TokenList.regular_cs (name : String) : TokenList.Regular [.cs name] :=
  ⟨by simp [Token.isParam], .token rfl rfl .nil⟩

theorem TokenList.regular_ofText (s : String) : (TokenList.ofText s).Regular :=
  ⟨parameterFree_ofText s, balanced_of_not_brace fun _ ht => (isChar_of_mem_ofText ht).2⟩

namespace MacroDef

/-! ## Patterns -/

/-- The parameters with the numbers from 1 to `n`. -/
def numberedParams (n : Nat) : TokenList :=
  (List.range' 1 n).map Token.param

theorem numberedParams_succ (n : Nat) :
    numberedParams (n + 1) = numberedParams n ++ [.param (n + 1)] := by
  rw [numberedParams, List.range'_concat, List.map_append, Nat.one_mul, Nat.add_comm 1 n]
  rfl

@[simp] theorem length_numberedParams (n : Nat) : (numberedParams n).length = n := by
  rw [numberedParams, List.length_map, List.length_range']

/-- At most nine parameters, numbered in their order; no brace is closed, and one is
    opened at most at the end. -/
structure IsPattern (p : TokenList) : Prop where
  numbered : p.filter (·.isParam) = numberedParams (params p)
  params_le : params p ≤ 9
  braces : PatternBraces p

/-- The brace at the end of a pattern. -/
def finalBrace? (p : TokenList) : Option Token :=
  p.getLast?.filter (·.hasCat .beginGroup)

theorem finalBrace?_of_not_brace {p : TokenList}
    (h : ∀ t ∈ p, t.hasCat .beginGroup = false ∧ t.hasCat .endGroup = false) :
    finalBrace? p = none := by
  rw [finalBrace?, Option.filter_eq_none_iff]
  intro t ht
  rw [(h t (List.mem_of_getLast? ht)).1]
  exact Bool.false_ne_true

theorem finalBrace?_append_brace (p : TokenList) {b : Token} (hb : b.hasCat .beginGroup = true) :
    finalBrace? (p ++ [b]) = some b := by
  rw [finalBrace?, List.getLast?_append, List.getLast?_singleton, Option.some_or,
    Option.filter_some, if_pos hb]

/-! ## Macros -/

/-- A macro as definitions make them: the body refers to parameters of the pattern only,
    and it is balanced apart from the brace that ends the pattern. -/
structure WellFormed (d : MacroDef) : Prop where
  pattern : IsPattern d.pattern
  indices : ∀ k, .param k ∈ d.body → 1 ≤ k ∧ k ≤ params d.pattern
  body : ∃ inner, Balanced inner ∧ d.body = inner ++ (finalBrace? d.pattern).toList

/-! ## Calls -/

theorem params_cons_of_not_isParam {t : Token} (ht : t.isParam = false) (p : TokenList) :
    params (t :: p) = params p :=
  List.countP_cons_of_neg (by simp [ht])

theorem params_param_cons (k : Nat) (p : TokenList) :
    params (.param k :: p) = params (p.dropWhile (!·.isParam)) + 1 := by
  have hfront : ∀ t ∈ p.takeWhile (!·.isParam), t.isParam = false := by
    intro t ht
    simpa using List.all_eq_true.mp List.all_takeWhile t ht
  have hparams : params p = params (p.dropWhile (!·.isParam)) := by
    conv => lhs; rw [← List.takeWhile_append_dropWhile (p := (!·.isParam)) (l := p)]
    exact params_append hfront _
  rw [← hparams]
  exact List.countP_cons_of_pos rfl

/-- A call that succeeds has read one argument for each parameter of the pattern. -/
theorem length_readArguments {fuel : Nat} {d : MacroDef} {call : Token} (p : TokenList)
    {m m' : Machine} {args : List TokenList} (h : readArguments fuel d call p m = .ok args m') :
    args.length = params p := by
  -- Induction on the length of the pattern: a parameter is read with its delimiters.
  induction hn : p.length using Nat.strongRecOn generalizing p m m' args with
  | ind n ih =>
    subst hn
    cases p with
    | nil =>
      rw [readArguments] at h
      injection h with hargs
      rw [← hargs]
      rfl
    | cons t rest =>
      cases ht : t.isParam with
      | true =>
        obtain ⟨k, rfl⟩ : ∃ k, t = .param k := by
          cases t <;> simp_all [Token.isParam]
        rw [readArguments_param] at h
        obtain ⟨arg, m₁, -, h⟩ := exists_of_bind_eq_ok h
        obtain ⟨more, m₂, hmore, h⟩ := exists_of_bind_eq_ok h
        injection h with hargs
        have hshorter : (rest.dropWhile (!·.isParam)).length < (Token.param k :: rest).length :=
          Nat.lt_succ_of_le (List.dropWhile_suffix _).length_le
        rw [← hargs, List.length_cons, ih _ hshorter _ hmore rfl, params_param_cons]
      | false =>
        have hread : ∃ m₁, readArguments fuel d call rest m₁ = .ok args m' := by
          have hstep : readArguments fuel d call (t :: rest) = (do
              let t' ← expect (← token?) .runawayArgument [call.text]
              if t' = t then readArguments fuel d call rest
              else
                push [t']
                failAt .patternMismatch t' [call.text]) := by
            cases t with
            | param k => contradiction
            | _ => rw [readArguments]; simp
          rw [hstep] at h
          obtain ⟨t?, m₁, -, h⟩ := exists_of_bind_eq_ok h
          obtain ⟨t', m₂, -, h⟩ := exists_of_bind_eq_ok h
          split at h
          · exact ⟨m₂, h⟩
          · contradiction
        obtain ⟨m₁, hread⟩ := hread
        rw [ih rest.length (by simp) rest hread rfl, params_cons_of_not_isParam ht]

/-- A call is replaced by a list without parameters. -/
theorem parameterFree_substitute {args : List TokenList}
    (hargs : ∀ arg ∈ args, TokenList.ParameterFree arg) (body : TokenList) :
    TokenList.ParameterFree (substitute args body) :=
  forall_mem_substitute hargs fun _ _ ht => ht

end MacroDef

end TexEngine
