/-
  TexEngine.Proofs.Engine.MacroCall

  Macro calls.  A definition gives a pattern without closing braces, where an
  opening brace can only be the last token.  If the parameters of such a pattern
  are filled with balanced lists in braces, a call reads these lists as its
  arguments and is replaced by the body with the arguments put in.

  The parameters of a pattern are numbered in their order, so the parameter with
  number `k` is the `k`-th one.
-/
import TexEngine.Engine.Definition
import TexEngine.Proofs.Engine.Arguments

namespace TexEngine

open Eng

/-! ## Patterns -/

/-- Braces in a pattern: none is closed, and one is opened at most at the end. -/
structure PatternBraces (p : TokenList) : Prop where
  no_close : ∀ t ∈ p, t.hasCat .endGroup = false
  open_last : ∀ t qs, t :: qs <:+ p → t.hasCat .beginGroup = true → qs = []

theorem PatternBraces.of_suffix {p q : TokenList} (h : PatternBraces p) (hq : q <:+ p) :
    PatternBraces q :=
  ⟨fun t ht => h.no_close t (hq.subset ht), fun t qs hqs => h.open_last t qs (hqs.trans hq)⟩

/-- Tokens of a pattern in front of others open no brace. -/
theorem PatternBraces.not_open {ds qs : TokenList} {l : Token}
    (h : PatternBraces (ds ++ l :: qs)) : ∀ t ∈ ds, t.hasCat .beginGroup = false := by
  intro t ht
  obtain ⟨us, vs, rfl⟩ := List.append_of_mem ht
  cases hopen : t.hasCat .beginGroup with
  | false => rfl
  | true =>
    have hsuffix : t :: (vs ++ l :: qs) <:+ us ++ t :: vs ++ l :: qs := ⟨us, by simp⟩
    have hnil := h.open_last t (vs ++ l :: qs) hsuffix hopen
    simp at hnil

theorem patternBraces_of_not_brace {p : TokenList}
    (h : ∀ t ∈ p, t.hasCat .beginGroup = false ∧ t.hasCat .endGroup = false) :
    PatternBraces p := by
  refine ⟨fun t ht => (h t ht).2, ?_⟩
  intro t qs hqs hopen
  rw [(h t (hqs.subset List.mem_cons_self)).1] at hopen
  contradiction

theorem patternBraces_append_brace {p : TokenList} {b : Token}
    (h : ∀ t ∈ p, t.hasCat .beginGroup = false ∧ t.hasCat .endGroup = false)
    (hb : b.hasCat .beginGroup = true) : PatternBraces (p ++ [b]) := by
  constructor
  · intro t ht
    rcases List.mem_append.mp ht with hp | hlast
    · exact (h t hp).2
    · rw [List.mem_singleton.mp hlast]
      obtain ⟨c, rfl⟩ : ∃ c, b = .char c .beginGroup := by
        cases b <;> simp_all [Token.hasCat]
      rfl
  · intro t qs hqs hopen
    -- A token in front of the last one is one of `p`.
    rcases List.eq_nil_or_concat qs with rfl | ⟨init, last, rfl⟩
    · rfl
    · obtain ⟨us, hus⟩ := hqs
      have hinit : us ++ t :: init = p := by
        have hconcat : us ++ t :: init ++ [last] = p ++ [b] := by simpa using hus
        exact (List.append_inj' hconcat rfl).1
      rw [(h t (by simp [← hinit])).1] at hopen
      contradiction

/-! ## Definitions -/

namespace Expander

/-- One round of `scanParameterText`. -/
def parameterStep (p : ParameterText) : Eng (Step ParameterText ParameterText) := do
  let t ← expect (← token?) .missingLeftBrace []
  if t.hasCat .beginGroup then return .done { p with pattern := p.pattern.reverse }
  else if t.hasCat .endGroup then failAt .missingLeftBrace t []
  else if t.hasCat .parameter then
    let next ← expect (← token?) .missingLeftBrace []
    if next.hasCat .beginGroup then
      return .done { p with pattern := (next :: p.pattern).reverse, brace := some next }
    else if !next.isChar || next.code ≠ 49 + p.params || p.params ≥ 9 then
      failAt .parameterNumber next []
    else
      return .again
        { p with pattern := .param (p.params + 1) :: p.pattern, params := p.params + 1 }
  else return .again { p with pattern := t :: p.pattern }

theorem scanParameterText_eq_iterate (x : Expander) :
    x.scanParameterText = iterate parameterStep x.fuel {} := rfl

/-- A parameter text so far: it contains no braces. -/
def ParameterText.Braceless (p : ParameterText) : Prop :=
  ∀ t ∈ p.pattern, t.hasCat .beginGroup = false ∧ t.hasCat .endGroup = false

/-- What a round of the loop can do. -/
theorem parameterStep_cases {p : ParameterText} {m m' : Machine}
    {r : Step ParameterText ParameterText} (h : parameterStep p m = .ok r m') :
    (∃ q : ParameterText, r = .done q ∧ q.pattern = p.pattern.reverse) ∨
    (∃ (q : ParameterText) (b : Token), r = .done q ∧ b.hasCat .beginGroup = true ∧
      q.pattern = p.pattern.reverse ++ [b]) ∨
    (∃ (q : ParameterText) (k : Nat), r = .again q ∧ q.pattern = .param k :: p.pattern) ∨
    (∃ (q : ParameterText) (t : Token), r = .again q ∧ t.hasCat .beginGroup = false ∧
      t.hasCat .endGroup = false ∧ q.pattern = t :: p.pattern) := by
  -- The token that is read decides: a brace opens the body, a closing brace fails, and a
  -- parameter character stands for a parameter or a final brace.
  obtain ⟨t?, m₁, -, h⟩ := exists_of_bind_eq_ok h
  obtain ⟨t, m₂, -, h⟩ := exists_of_bind_eq_ok h
  by_cases hopen : t.hasCat .beginGroup = true
  · rw [if_pos hopen] at h
    injection h with hr
    exact .inl ⟨_, hr.symm, rfl⟩
  · rw [if_neg hopen] at h
    by_cases hclose : t.hasCat .endGroup = true
    · rw [if_pos hclose] at h
      contradiction
    · rw [if_neg hclose] at h
      simp only [Bool.not_eq_true] at hopen hclose
      by_cases hparam : t.hasCat .parameter = true
      · rw [if_pos hparam] at h
        obtain ⟨n?, m₃, -, h⟩ := exists_of_bind_eq_ok h
        obtain ⟨n, m₄, -, h⟩ := exists_of_bind_eq_ok h
        by_cases hbrace : n.hasCat .beginGroup = true
        · rw [if_pos hbrace] at h
          injection h with hr
          exact .inr (.inl ⟨_, n, hr.symm, hbrace, List.reverse_cons⟩)
        · rw [if_neg hbrace] at h
          split at h
          · contradiction
          · injection h with hr
            exact .inr (.inr (.inl ⟨_, _, hr.symm, rfl⟩))
      · rw [if_neg hparam] at h
        injection h with hr
        exact .inr (.inr (.inr ⟨_, t, hr.symm, hopen, hclose, rfl⟩))

theorem patternBraces_of_scanParameterText {x : Expander} {p : ParameterText} {m m' : Machine}
    (h : x.scanParameterText m = .ok p m') : PatternBraces p.pattern := by
  rw [scanParameterText_eq_iterate] at h
  refine iterate_induct (I := ParameterText.Braceless) (Q := fun p => PatternBraces p.pattern)
    ?_ ?_ ?_ h
  · -- A round that goes on adds a parameter, or a token that is no brace.
    intro s s' m m' hs hstep
    rcases parameterStep_cases hstep with ⟨q, hr, -⟩ | ⟨q, b, hr, -⟩ | ⟨q, k, hr, hq⟩ |
      ⟨q, t, hr, hopen, hclose, hq⟩
    · contradiction
    · contradiction
    · injection hr with hr
      intro u hu
      rw [hr, hq, List.mem_cons] at hu
      rcases hu with rfl | hu
      · exact ⟨rfl, rfl⟩
      · exact hs u hu
    · injection hr with hr
      intro u hu
      rw [hr, hq, List.mem_cons] at hu
      rcases hu with rfl | hu
      · exact ⟨hopen, hclose⟩
      · exact hs u hu
  · -- The last round ends the pattern, or adds the brace of its end.
    intro s a m m' hs hstep
    have hs' : ∀ t ∈ s.pattern.reverse, t.hasCat .beginGroup = false ∧ t.hasCat .endGroup = false :=
      fun t ht => hs t (List.mem_reverse.mp ht)
    rcases parameterStep_cases hstep with ⟨q, hr, hq⟩ | ⟨q, b, hr, hb, hq⟩ | ⟨q, k, hr, -⟩ |
      ⟨q, t, hr, -⟩
    · injection hr with hr
      rw [hr, hq]
      exact patternBraces_of_not_brace hs'
    · injection hr with hr
      rw [hr, hq]
      exact patternBraces_append_brace hs' hb
    · contradiction
    · contradiction
  · intro t ht
    contradiction

end Expander

namespace MacroDef

/-- A macro as a definition makes it, with any modifiers. -/
def IsDefinable (d : MacroDef) : Prop :=
  ∃ (x : Expander) (name : String) (expand : Bool) (m m' : Machine) (d₀ : MacroDef),
    x.scanDefinition name expand m = .ok d₀ m' ∧
    d = { d₀ with isLong := d.isLong, isOuter := d.isOuter, isProtected := d.isProtected }

/-- A definition that is read without failure gives a definable macro. -/
theorem isDefinable_of_scanDefinition {x : Expander} {name : String} {expand : Bool} {m : Machine}
    {d : MacroDef} (h : (x.scanDefinition name expand).value? m = some d) : d.IsDefinable := by
  obtain ⟨m', hdef⟩ := exists_of_value?_eq_some h
  exact ⟨x, name, expand, m, m', d, hdef, rfl⟩

theorem IsDefinable.patternBraces {d : MacroDef} (h : d.IsDefinable) : PatternBraces d.pattern := by
  obtain ⟨x, name, expand, m, m', d₀, hdef, hd⟩ := h
  obtain ⟨p, m₁, hp, hrest⟩ := exists_of_bind_eq_ok hdef
  obtain ⟨body, m₂, -, hend⟩ := exists_of_bind_eq_ok hrest
  have hpattern : d.pattern = p.pattern := by
    injection hend with hd₀
    rw [hd, ← hd₀]
  rw [hpattern]
  exact Expander.patternBraces_of_scanParameterText hp

/-! ## Calls -/

/-- A pattern where the parameters are filled with lists in braces, in their order.
    This is the order of their numbers. -/
def fill : TokenList → List Braced → TokenList
  | .param _ :: ps, g :: gs => g.tokens ++ fill ps gs
  | p :: ps, gs => p :: fill ps gs
  | [], _ => []

@[simp] theorem fill_nil (gs : List Braced) : fill [] gs = [] := by
  cases gs <;> rfl

theorem fill_param (k : Nat) (ps : TokenList) (g : Braced) (gs : List Braced) :
    fill (.param k :: ps) (g :: gs) = g.tokens ++ fill ps gs := rfl

theorem fill_of_not_isParam {t : Token} (ht : t.isParam = false) (ps : TokenList)
    (gs : List Braced) : fill (t :: ps) gs = t :: fill ps gs := by
  cases t with
  | param k => contradiction
  | _ => cases gs <;> rfl

theorem fill_append {ds : TokenList} (hds : ∀ t ∈ ds, t.isParam = false) (ps : TokenList)
    (gs : List Braced) : fill (ds ++ ps) gs = ds ++ fill ps gs := by
  induction ds with
  | nil => rfl
  | cons t ds ih =>
    rw [List.forall_mem_cons] at hds
    rw [List.cons_append, fill_of_not_isParam hds.1, ih hds.2, List.cons_append]

/-- The number of parameters of a pattern. -/
def params (p : TokenList) : Nat :=
  p.countP (·.isParam)

theorem params_append {ds : TokenList} (hds : ∀ t ∈ ds, t.isParam = false) (ps : TokenList) :
    params (ds ++ ps) = params ps := by
  have hzero : ds.countP (·.isParam) = 0 := by
    rw [List.countP_eq_zero]
    intro t ht
    simp [hds t ht]
  rw [params, List.countP_append, hzero, Nat.zero_add, params]

/-- What the call of a macro asks of the rest of its pattern: the braces are in order,
    no parameter stands right in front of a brace, and the tokens behind the first
    parameter may stand in arguments. -/
structure Callable (d : MacroDef) (env : Env Meaning) (p : TokenList) : Prop where
  braces : PatternBraces p
  no_param_brace : ∀ k c, ¬ [.param k, .char c .beginGroup] <:+ p
  accepts : ∀ t ∈ p.dropWhile (!·.isParam), d.Accepts env t

variable {d : MacroDef} {env : Env Meaning}

theorem Callable.tail_of_not_isParam {t : Token} {ps : TokenList} (h : d.Callable env (t :: ps))
    (ht : t.isParam = false) : d.Callable env ps := by
  have hsuffix : ps <:+ t :: ps := List.suffix_cons t ps
  refine ⟨h.braces.of_suffix hsuffix, fun k c hk => h.no_param_brace k c (hk.trans hsuffix), ?_⟩
  have haccepts := h.accepts
  rwa [List.dropWhile_cons_of_pos (by simp [ht])] at haccepts

/-- Behind a parameter, its delimiters can be read as such, and so can the rest. -/
theorem Callable.delims {k : Nat} {ds ps : TokenList}
    (h : d.Callable env (.param k :: (ds ++ ps))) :
    (∀ t ∈ ds, d.Accepts env t) ∧ d.Callable env ps := by
  have haccepts : ∀ t ∈ Token.param k :: (ds ++ ps), d.Accepts env t := by
    have h' := h.accepts
    rwa [List.dropWhile_cons_of_neg (by simp [Token.isParam])] at h'
  have hsuffix : ps <:+ Token.param k :: (ds ++ ps) := ⟨.param k :: ds, rfl⟩
  refine ⟨fun t ht => haccepts t (by simp [ht]), h.braces.of_suffix hsuffix,
    fun k c hk => h.no_param_brace k c (hk.trans hsuffix), ?_⟩
  intro t ht
  exact haccepts t (hsuffix.subset (List.dropWhile_suffix _ |>.subset ht))

/-- A single delimiter is no brace. -/
theorem Callable.not_open {k : Nat} {l : Token} {ps : TokenList}
    (h : d.Callable env (.param k :: l :: ps)) : l.hasCat .beginGroup = false := by
  cases hopen : l.hasCat .beginGroup with
  | false => rfl
  | true =>
    have hlast := h.braces.open_last l ps ⟨[.param k], rfl⟩ hopen
    obtain ⟨c, rfl⟩ : ∃ c, l = .char c .beginGroup := by
      cases l <;> simp_all [Token.hasCat]
    exact absurd ⟨[], by rw [hlast, List.nil_append]⟩ (h.no_param_brace k c)

/-- Reads one argument, up to the given delimiters. -/
def readArgument (fuel : Nat) (d : MacroDef) (call : Token) (ds : TokenList) : Eng TokenList :=
  if ds.isEmpty then undelimitedArgument fuel d call else delimitedArgument fuel d call ds

theorem readArguments_param (fuel : Nat) (d : MacroDef) (call : Token) (k : Nat)
    (rest : TokenList) :
    readArguments fuel d call (.param k :: rest) = (do
      let arg ← readArgument fuel d call (rest.takeWhile (!·.isParam))
      return arg :: (← readArguments fuel d call (rest.dropWhile (!·.isParam)))) := by
  have hdrop : rest.drop (rest.takeWhile (!·.isParam)).length = rest.dropWhile (!·.isParam) := by
    conv => lhs; arg 2; rw [← List.takeWhile_append_dropWhile (p := (!·.isParam)) (l := rest)]
    rw [List.drop_left]
  rw [readArguments, hdrop, readArgument]
  cases (rest.takeWhile (!·.isParam)).isEmpty <;> rfl

theorem readArguments_token {t : Token} (ht : t.isParam = false) (fuel : Nat) (d : MacroDef)
    (call : Token) (rest : TokenList) (m : Machine) (ts : TokenList) :
    readArguments fuel d call (t :: rest) (m.feed (t :: ts)) =
      readArguments fuel d call rest ((m.pass t).feed ts) := by
  have hread : readArguments fuel d call (t :: rest) = (do
      let t' ← expect (← token?) .runawayArgument [call.text]
      if t' = t then readArguments fuel d call rest
      else
        push [t']
        failAt .patternMismatch t' [call.text]) := by
    cases t with
    | param k => contradiction
    | _ => rw [readArguments]; simp
  rw [hread, bind_of_ok (token?_feed m t ts), bind_of_ok (expect_some ..), if_pos rfl]

/-- An argument in braces is read up to its delimiters. -/
theorem readArgument_braced {k : Nat} {ds ps : TokenList} (hds : ∀ t ∈ ds, t.isParam = false)
    (call : Token) (g : Braced) (m : Machine) (h : d.Callable m.env (.param k :: (ds ++ ps)))
    (hg : ∀ t ∈ g.inner, d.Accepts m.env t) (fuel : Nat)
    (hfuel : g.tokens.length + ds.length ≤ fuel) (us : TokenList) :
    readArgument fuel d call ds (m.feed (g.tokens ++ (ds ++ us))) =
      .ok g.inner ((m.passAll (g.tokens ++ ds)).feed us) := by
  obtain ⟨haccepts, -⟩ := h.delims
  -- Without delimiters the group itself ends the argument.
  rcases List.eq_nil_or_concat ds with rfl | ⟨init, l, rfl⟩
  · have hread : undelimitedArgument fuel d call _ = _ :=
      undelimitedArgument_group g m hg fuel (by simpa using hfuel) us
    simpa [readArgument] using hread
  · have hbraces : PatternBraces (init ++ l :: ps) := by
      refine h.braces.of_suffix ⟨[.param k], ?_⟩
      simp
    have hinit : ∀ t ∈ init, t.hasCat .beginGroup = false ∧ t.hasCat .endGroup = false :=
      fun t ht => ⟨hbraces.not_open t ht, hbraces.no_close t (by simp [ht])⟩
    have hlast : init = [] → l.hasCat .beginGroup = false := by
      rintro rfl
      have hsingle : d.Callable m.env (.param k :: l :: ps) := by simpa using h
      exact hsingle.not_open
    have hacc : ∀ t ∈ g.inner ++ (init ++ [l]), d.Accepts m.env t := by
      intro t ht
      rcases List.mem_append.mp ht with hinner | hdelims
      · exact hg t hinner
      · exact haccepts t (by simpa using hdelims)
    simp only [List.concat_eq_append, List.length_append, List.length_singleton] at hfuel ⊢
    have hread : delimitedArgument fuel d call _ _ = _ :=
      delimitedArgument_group g init l hinit hlast m hacc fuel (by omega) us
    rw [readArgument, if_neg (by simp)]
    simpa using hread

/-- A filled pattern gives back what its parameters are filled with. -/
theorem readArguments_fill (call : Token) (p : TokenList) (gs : List Braced)
    (hcount : gs.length = params p) (m : Machine) (hp : d.Callable m.env p)
    (hgs : ∀ g ∈ gs, ∀ t ∈ g.inner, d.Accepts m.env t) (fuel : Nat)
    (hfuel : (fill p gs).length ≤ fuel) (us : TokenList) :
    readArguments fuel d call p (m.feed (fill p gs ++ us)) =
      .ok (gs.map (·.inner)) ((m.passAll (fill p gs)).feed us) := by
  -- Induction on the length of the pattern: a parameter is read with its delimiters.
  induction hn : p.length using Nat.strongRecOn generalizing p gs m with
  | ind n ih =>
    subst hn
    cases p with
    | nil =>
      obtain rfl : gs = [] := List.length_eq_zero_iff.mp hcount
      rw [readArguments]
      rfl
    | cons t rest =>
      cases ht : t.isParam with
      | false =>
        have hparams : params (t :: rest) = params rest := by
          rw [params, List.countP_cons_of_neg (by simp [ht]), params]
        rw [fill_of_not_isParam ht, List.length_cons] at hfuel
        rw [fill_of_not_isParam ht, List.cons_append, readArguments_token ht,
          ih rest.length (by simp) rest gs (by rw [hcount, hparams]) (m.pass t)
            (hp.tail_of_not_isParam ht) hgs (by omega) rfl]
        rfl
      | true =>
        obtain ⟨k, rfl⟩ : ∃ k, t = .param k := by
          cases t <;> simp_all [Token.isParam]
        let ds := rest.takeWhile (!·.isParam)
        let ps := rest.dropWhile (!·.isParam)
        have hrest : rest = ds ++ ps := (List.takeWhile_append_dropWhile).symm
        have hds : ∀ t ∈ ds, t.isParam = false := by
          intro t ht
          simpa using List.all_eq_true.mp List.all_takeWhile t ht
        have hparams : params (.param k :: (ds ++ ps)) = params ps + 1 := by
          rw [params, List.countP_cons_of_pos rfl, ← params, params_append hds]
        rw [hrest] at hp hcount hfuel
        obtain ⟨g, gs, rfl⟩ : ∃ g gs', gs = g :: gs' := by
          cases gs with
          | nil => rw [hparams] at hcount; contradiction
          | cons g gs' => exact ⟨g, gs', rfl⟩
        rw [List.forall_mem_cons] at hgs
        rw [fill_param, fill_append hds, List.length_append, List.length_append] at hfuel
        have hshorter : ps.length < (Token.param k :: rest).length := by
          rw [hrest, List.length_cons, List.length_append]
          omega
        have hfirst := readArgument_braced hds call g m hp hgs.1 fuel (by omega) (fill ps gs ++ us)
        have hmore := ih ps.length hshorter ps gs (by rw [hparams] at hcount; simpa using hcount)
          (m.passAll (g.tokens ++ ds)) (by simpa using hp.delims.2) (by simpa using hgs.2)
          (by omega) rfl
        have hinput : fill (.param k :: rest) (g :: gs) ++ us =
            g.tokens ++ (ds ++ (fill ps gs ++ us)) := by
          conv => lhs; rw [hrest]
          rw [fill_param, fill_append hds, List.append_assoc, List.append_assoc]
        have hpassed : m.passAll (fill (.param k :: rest) (g :: gs)) =
            (m.passAll (g.tokens ++ ds)).passAll (fill ps gs) := by
          conv => lhs; rw [hrest]
          rw [fill_param, fill_append hds, ← List.append_assoc, Machine.passAll_append]
        rw [hinput, hpassed, readArguments_param, bind_of_ok hfirst, bind_of_ok hmore]
        rfl

theorem traceArguments_apply (esc : Option CharCode) (n : Nat) (args : List TokenList)
    (m : Machine) : ∃ es, traceArguments esc n args m = .ok () (m.note es) := by
  induction args generalizing n m with
  | nil => exact ⟨[], rfl⟩
  | cons arg args ih =>
    rw [traceArguments, bind_of_ok (trace_apply ..)]
    obtain ⟨es, hes⟩ := ih (n + 1) (m.note _)
    rw [hes, Machine.note_note]
    exact ⟨_, rfl⟩

/-- Once the arguments have been read, the body takes their place. -/
theorem call_of_readArguments {fuel : Nat} {t : Token} {args : List TokenList} {m m' : Machine}
    {us : TokenList} (h : readArguments fuel d t d.pattern m = .ok args (m'.feed us)) :
    ∃ es, d.call fuel t m = .ok () ((m'.note es).feed (substitute args d.body ++ us)) := by
  unfold call
  rw [bind_of_ok h, bind_of_ok (env_apply _)]
  dsimp only
  cases (m'.feed us).env.traces "tracingmacros" with
  | false => exact ⟨[], push_feed m' _ us⟩
  | true =>
    simp only [if_true]
    rw [bind_of_ok (trace_apply ..)]
    obtain ⟨es, hes⟩ := traceArguments_apply (m'.feed us).env.escapeChar 1 args
      ((m'.feed us).note _)
    rw [bind_of_ok hes, Machine.note_note, Machine.note_feed, push_feed]
    exact ⟨_, rfl⟩

/-- The call of a macro whose pattern is filled with balanced lists in braces reads
    these lists as its arguments, stops right behind the pattern, and is replaced by
    the body with the arguments put in.  If the body has no references to others, this is
    the one list in which each reference gives its argument and all other tokens stay. -/
theorem call_fill_eq_substitute (d : MacroDef) (hd : d.IsDefinable)
    (hbrace : ∀ k c, ¬ [.param k, .char c .beginGroup] <:+ d.pattern) (args : List Braced)
    (hcount : args.length = params d.pattern) (m : Machine)
    (hargs : ∀ g ∈ args, ∀ t ∈ g.inner, d.Accepts m.env t)
    (hdelims : ∀ t ∈ d.pattern.dropWhile (!·.isParam), d.Accepts m.env t) (fuel : Nat)
    (hfuel : (fill d.pattern args).length ≤ fuel) (t : Token) (R : TokenList) :
    (∃ m' : Machine, m'.ready = m.ready ∧
      readArguments fuel d t d.pattern (m.feed (fill d.pattern args ++ R)) =
        .ok (args.map (·.inner)) (m'.feed R) ∧
      ∃ es, d.call fuel t (m.feed (fill d.pattern args ++ R)) =
        .ok () ((m'.note es).feed (substitute (args.map (·.inner)) d.body ++ R))) ∧
      ((∀ k, .param k ∈ d.body → 1 ≤ k ∧ k ≤ args.length) → ∀ ts,
        Substituted (args.map (·.inner)) d.body ts ↔
          ts = substitute (args.map (·.inner)) d.body) := by
  constructor
  · have hcallable : d.Callable m.env d.pattern := ⟨hd.patternBraces, hbrace, hdelims⟩
    have hread := readArguments_fill t d.pattern args hcount m hcallable hargs fuel hfuel R
    exact ⟨m.passAll (fill d.pattern args), m.ready_passAll _, hread, call_of_readArguments hread⟩
  · intro hbody ts
    refine substituted_iff fun k hk => ?_
    rw [List.length_map]
    exact hbody k hk

/-- The definition #1,#2{#2;#1} -/
def swapDefinition : TokenList :=
  [.char 35 .parameter, .other 49, .other 44, .char 35 .parameter, .other 50,
    .char 123 .beginGroup, .char 35 .parameter, .other 50, .other 59, .char 35 .parameter,
    .other 49, .char 125 .endGroup]

/-- The macro with this definition. -/
def swapMacro : MacroDef :=
  { name := "swap", pattern := [.param 1, .other 44, .param 2],
    body := [.param 2, .other 59, .param 1] }

theorem swapMacro_isDefinable : swapMacro.IsDefinable := by
  have hread : (Expander.scanDefinition ⟨20, fun _ _ => pure ()⟩ "swap" false).value?
      (Machine.feed { env := {} } swapDefinition) = some swapMacro := by
    decide +kernel
  exact isDefinable_of_scanDefinition hread

/-- The arguments {,{x}} and {y}, the first of which contains the delimiter. -/
def swapArguments : List Braced :=
  [⟨123, 125, [.other 44, .char 123 .beginGroup, .letter 120, .char 125 .endGroup],
    .token rfl rfl (.group 123 125 (.token rfl rfl .nil) .nil)⟩,
   ⟨123, 125, [.letter 121], .token rfl rfl .nil⟩]

theorem call_fill_eq_substitute_swap :
    substitute (swapArguments.map (·.inner)) swapMacro.body =
      [.letter 121, .other 59, .other 44, .char 123 .beginGroup, .letter 120,
        .char 125 .endGroup] ∧
    Substituted (swapArguments.map (·.inner)) swapMacro.body
      (substitute (swapArguments.map (·.inner)) swapMacro.body) ∧
    ∃ m' : Machine, m'.ready = Machine.ready { env := {} } ∧
      readArguments 12 swapMacro (.cs "swap") swapMacro.pattern
          (Machine.feed { env := {} } (fill swapMacro.pattern swapArguments ++ [.letter 122])) =
        .ok (swapArguments.map (·.inner)) (m'.feed [.letter 122]) ∧
      ∃ es, swapMacro.call 12 (.cs "swap")
          (Machine.feed { env := {} } (fill swapMacro.pattern swapArguments ++ [.letter 122])) =
        .ok () ((m'.note es).feed
          (substitute (swapArguments.map (·.inner)) swapMacro.body ++ [.letter 122])) := by
  have hbrace : ∀ k c, ¬ [.param k, .char c .beginGroup] <:+ swapMacro.pattern := by
    rintro k c ⟨us, hus⟩
    have hlast := congrArg List.getLast? hus
    simp [swapMacro] at hlast
  have hargs : ∀ g ∈ swapArguments, ∀ t ∈ g.inner, swapMacro.Accepts {} t := by
    intro g hg t ht
    apply accepts_of_not_isCommand
    revert t g
    decide
  have hdelims : ∀ t ∈ swapMacro.pattern.dropWhile (!·.isParam), swapMacro.Accepts {} t := by
    intro t ht
    apply accepts_of_not_isCommand
    revert t
    decide
  have hbody : ∀ k, .param k ∈ swapMacro.body → 1 ≤ k ∧ k ≤ swapArguments.length := by
    simp [swapMacro, swapArguments, Token.other]
  obtain ⟨hcall, hsubstituted⟩ := call_fill_eq_substitute swapMacro swapMacro_isDefinable hbrace
    swapArguments (by decide) { env := {} } hargs hdelims 12 (by decide) (.cs "swap") [.letter 122]
  exact ⟨by decide, (hsubstituted hbody _).mpr rfl, hcall⟩

end MacroDef

end TexEngine
