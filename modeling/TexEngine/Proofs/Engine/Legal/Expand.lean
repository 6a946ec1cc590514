/-
  TexEngine.Proofs.Engine.Legal.Expand

  Expansion keeps to its discipline: conditionals, the expandable primitives and macro
  calls do, if all deeper expansions do.  By induction on the levels of expansions
  that are allowed, every expander does.

  Only conditionals change the conditional stack.  Tests, the expandable primitives and
  macro calls keep to every discipline of expansion; that conditionals do is a
  hypothesis of `perform_spec` and `step_spec`.  Only \input and \scantokens open
  streams, and they check the limit in front of that.
-/
import TexEngine.Engine.Expand
import TexEngine.Proofs.Engine.Legal.Texts
import TexEngine.Proofs.Env.Contents

namespace TexEngine

open Eng Discipline

variable {x : Expander} {D : Discipline} [Expanding D] {P : Prop}

/-! ## The conditional stack -/

theorem Machine.Expands.conditionals (m : Machine) (conditionals : Array Conditional) :
    m.Expands { m with env := { m.env with conditionals } } :=
  ⟨⟨[], Env.Relaxes.refl.conditionals conditionals⟩, rfl, Nat.le_refl _⟩

namespace Eng

section Branching

variable {D : Discipline} [Branching D]

/-- What changes the conditional stack, and nothing else. -/
theorem Spec.of_conditionals {α : Type} {act : Eng α} {Q : α → Prop}
    (h : ∀ m : Machine, ∃ a conditionals,
      act m = .ok a { m with env := { m.env with conditionals } } ∧ Q a) : Spec D P act Q := by
  constructor
  intro m
  obtain ⟨a, conditionals, hact, ha⟩ := h m
  rw [hact, Expanding.inv_eq (D := D)]
  refine ⟨Branching.rel_of_expands (.conditionals m conditionals) (.of_input_eq rfl rfl), ?_⟩
  exact fun _ hm _ => ⟨⟨hm.env.setConditionals _, hm.input, hm.exact⟩, ha⟩

theorem pushConditional_spec (c : Conditional) :
    Spec D P (pushConditional c) fun _ => True :=
  .of_conditionals fun _ => ⟨_, _, rfl, True.intro⟩

theorem modifyConditional_spec (i : Nat) (f : Conditional → Conditional) :
    Spec D P (modifyConditional i f) fun _ => True :=
  .of_conditionals fun _ => ⟨_, _, rfl, True.intro⟩

theorem popConditional_spec : Spec D P popConditional fun _ => True :=
  .of_conditionals fun _ => ⟨_, _, rfl, True.intro⟩

end Branching

/-- A control sequence that is undefined becomes \relax; then something else is
    done. -/
theorem relaxUndefined_spec (name : String) {act : Eng Unit}
    (hact : Spec D P act fun _ => True) :
    Spec D P
      (do
        if ((← env).code? name).isNone then assign (.code name (some Meaning.relax)) false
        act) fun _ => True := by
  have hrelax : Assignment.Legal (.code name (some Meaning.relax)) := by
    simp [Assignment.Legal]
  constructor
  intro m
  -- The only assignment that expansion makes; the name is undefined in `m`, as `Env.Relaxes.relax`
  -- requires.
  by_cases hname : (m.env.code? name).isNone = true
  · have hrun : (do
        if ((← env).code? name).isNone then assign (.code name (some Meaning.relax)) false
        act) m = (assign (.code name (some Meaning.relax)) false >>= fun _ => act) m := by
      show (if (m.env.code? name).isNone = true then _ else act) m = _
      rw [if_pos hname]
    rw [hrun]
    refine Spec.holds_of_change rfl (Expanding.rel ?_ ?_ ?_) ?_ (hact.mono And.left fun _ _ => id)
    · have hundefined := Option.isNone_iff_eq_none.mp hname
      exact ⟨⟨[name], Env.Relaxes.refl.relax hundefined⟩, rfl, Nat.le_refl _⟩
    · exact .of_input_eq rfl rfl
    · exact Env.conditionals_assign ..
    · rw [Expanding.inv_eq (D := D)]
      exact fun _ hm _ => ⟨hm.env.assign hrelax false, hm.input, hm.exact⟩
  · have hrun : (do
        if ((← env).code? name).isNone then assign (.code name (some Meaning.relax)) false
        act) m = act m := by
      show (if (m.env.code? name).isNone = true then _ else act) m = _
      rw [if_neg hname]
    rw [hrun]
    exact hact.holds m

end Eng

namespace Expander

/-! ## Skipping -/

/-- Skipping only reads: it keeps to every discipline to which reading a token
    keeps. -/
theorem skipBranch_spec {D : Discipline} {P : Prop}
    (hraw : ∀ {P : Prop}, Spec D P rawToken fun _ => True) (i : Nat) (cases : Bool) :
    Spec D P (x.skipBranch i cases) fun _ => True := by
  have hmeaning : ∀ t, Spec D (P ∧ True) (meaning? t) fun _ => True := by
    refine fun t => ⟨fun m => ?_⟩
    rw [meaning?_apply]
    exact ⟨D.refl m, fun _ hm _ => ⟨hm, True.intro⟩⟩
  refine .iterate (I := fun _ => True) (fun depth => ?_) _ fun _ => True.intro
  refine hraw.seq fun t? => ?_
  cases t? with
  | none =>
    have henv : Spec D (P ∧ True) env fun _ => True := Spec.get.seq fun _ => .done
    exact henv.seq fun _ => failHere_spec ..
  | some t =>
    dsimp -zeta only
    extract_lets next
    -- `next` gets the meaning of the token, or none for a character that is not active.
    have hnext : ∀ μ?, Spec D (P ∧ True) (next μ?)
        (Spec.Round (fun _ => True) fun _ => True) := by
      intro μ?
      have hround : ∀ r : Step Nat BranchEnd, Spec D (P ∧ True) (pure r)
          (Spec.Round (fun _ => True) fun _ => True) := by
        refine fun r => .pure fun _ => ?_
        cases r <;> exact True.intro
      dsimp only [next]
      split
      · split <;> exact hround _
      · exact hround _
    split
    · exact (hmeaning t).seq hnext
    · exact Spec.seq (Q := fun _ => True) (.done) hnext

section Branching

variable {D : Discipline} [Branching D]

theorem skipToFi_spec : Spec D P x.skipToFi fun _ => True := by
  refine env_spec.seq fun env => ?_
  refine .iterate (I := fun _ => True) (fun _ => ?_) _ fun _ => True.intro
  refine (skipBranch_spec rawToken_spec.trivial _ _).seq fun e => ?_
  split
  · exact popConditional_spec.seq fun _ => .pure fun _ => True.intro
  · exact .pure fun _ => True.intro

theorem skipFirst_spec (i : Nat) : Spec D P (x.skipFirst i) fun _ => True := by
  refine (skipBranch_spec rawToken_spec.trivial _ _).seq fun e => ?_
  split
  · exact popConditional_spec
  · exact modifyConditional_spec ..

theorem skipCases_spec (i : Nat) (n : Int64) :
    Spec D P (x.skipCases i n) fun _ => True := by
  refine .iterate (I := fun _ => True) (fun n => ?_) _ fun _ => True.intro
  split
  · exact (modifyConditional_spec ..).seq fun _ => .pure fun _ => True.intro
  · refine (skipBranch_spec rawToken_spec.trivial _ _).seq fun e => ?_
    split
    · exact popConditional_spec.seq fun _ => .pure fun _ => True.intro
    · exact (modifyConditional_spec ..).seq fun _ => .pure fun _ => True.intro
    · exact .pure fun _ => True.intro

end Branching

/-! ## Tests -/

theorem sameTokens_spec (a b : Token) : Spec D P (sameTokens a b) fun _ => True := by
  unfold sameTokens
  split
  · refine (meaning?_spec a).seq fun _ => (meaning?_spec b).seq fun _ => ?_
    split <;> exact .done
  · exact (meaning?_spec a).seq fun _ => .done
  · exact (meaning?_spec b).seq fun _ => .done
  · exact .done

theorem charCat_spec (t : Token) : Spec D P (charCat t) fun _ => True := by
  refine isFrozen_spec.seq fun frozen => ?_
  extract_lets finish
  -- The meaning of a token that is marked as not to be expanded is not looked up.
  have hfinish : ∀ μ?, Spec D P (finish μ?) fun _ => True := by
    intro μ?
    dsimp only [finish]
    split
    · exact .done
    · split <;> exact .done
  split
  · exact (meaning?_spec t).seq hfinish
  · exact Spec.seq (Q := fun _ => True) (.done) hfinish

section Expanding

variable (hx : x.KeepsTo D)

include hx

theorem scanRelation_spec : Spec D P x.scanRelation fun _ => True := by
  refine (nextNonSpace?_spec hx).required fun t => ?_
  split
  · exact .done
  · split
    · exact .done
    · split
      · exact .done
      · exact refuse_spec (fun hP => hP.2) ..

theorem scanBox_spec : Spec D P x.scanBox fun _ => True :=
  (scanRegisterNumber_spec hx).seq fun _ => env_spec.seq fun _ => .done

theorem test_spec (t : Test) : Spec D P (x.test t) fun _ => True := by
  have hbox : ∀ (f : Option Box → Bool), Spec D P (do return f (← x.scanBox))
      fun _ => True :=
    fun f => (scanBox_spec hx).seq fun _ => .done
  -- The tests of two characters differ only in what they compare.
  have hchars : ∀ (f : CharCode × Catcode → CharCode × Catcode → Bool), Spec D P (do
      let a ← charCat (← expect (← x.next?) .runawayConditional [])
      let b ← charCat (← expect (← x.next?) .runawayConditional [])
      return f a b) fun _ => True :=
    fun f => (next?_spec hx).required fun t => (charCat_spec t).seq fun _ =>
      (next?_spec hx).required fun u => (charCat_spec u).seq fun _ => .done
  cases t with
  | always => exact .done
  | never => exact .done
  | number =>
    exact (scanInteger_spec hx).seq fun _ => (scanRelation_spec hx).seq fun _ =>
      (scanInteger_spec hx).seq fun _ => .done
  | dimension =>
    exact (scanDimen_spec hx).seq fun _ => (scanRelation_spec hx).seq fun _ =>
      (scanDimen_spec hx).seq fun _ => .done
  | odd => exact (scanInteger_spec hx).seq fun _ => .done
  | sameMeaning =>
    exact rawToken_spec.required fun a => rawToken_spec.required fun b => sameTokens_spec a b
  | sameChar => exact hchars fun a b => a.1 == b.1
  | sameCategory => exact hchars fun a b => a.2 == b.2
  | voidBox => exact hbox _
  | horizontalBox => exact hbox _
  | verticalBox => exact hbox _
  | defined =>
    refine rawToken_spec.required fun t => ?_
    split
    · exact (meaning?_spec t).seq fun _ => .done
    · exact .done
  | definedName =>
    exact (scanCsname_spec hx).seq fun _ => env_spec.seq fun _ => .done

end Expanding

/-! ## Conditionals -/

section Conditionals

variable {D : Discipline} [Branching D] (hx : x.KeepsTo D)

theorem whilePending_spec {α : Type} {act : Eng α} {Q : α → Prop} (i : Nat)
    (hact : Spec D P act Q) : Spec D P (whilePending i act) Q := by
  refine Spec.bind (.tryCatch hact fun f => ?_) fun a => ?_
  · exact (modifyConditional_spec ..).seq fun _ => .throw f
  · exact (modifyConditional_spec ..).seq fun _ => .pure fun hP => hP.2

theorem openConditional_spec (name : String) (isCase : Bool) :
    Spec D P (openConditional name isCase) fun _ => True := by
  refine get_spec.seq fun m => (pushConditional_spec _).seq fun i => env_spec.seq fun env => ?_
  split
  · exact (trace_spec ..).seq fun _ => .done
  · exact .done

include hx

theorem expandIf_spec (t : Test) : Spec D P (x.expandIf t) fun _ => True := by
  refine (openConditional_spec ..).seq fun i => ?_
  refine (whilePending_spec i (test_spec hx t)).seq fun b => ?_
  split
  · exact modifyConditional_spec ..
  · exact skipFirst_spec i

theorem expandCase_spec : Spec D P x.expandCase fun _ => True := by
  refine (openConditional_spec ..).seq fun i => ?_
  refine (whilePending_spec i (scanInteger_spec hx)).seq fun n => ?_
  split
  · exact skipFirst_spec i
  · exact skipCases_spec i n

omit hx in
theorem endBranch_spec (p : CondPrimitive) {t : Token} (ht : P → t.Legal) :
    Spec D P (x.endBranch p t) fun _ => True := by
  refine env_spec.seq fun env => ?_
  dsimp only
  split
  · exact failAt_spec ..
  · split
    · exact push_spec fun hP => by simpa using ht hP
    · split
      · exact popConditional_spec
      · exact skipToFi_spec

theorem expandConditional_spec (p : CondPrimitive) {t : Token} (ht : P → t.Legal) :
    Spec D P (x.expandConditional p t) fun _ => True := by
  cases p with
  | test c => exact expandIf_spec hx c
  | ifCase => exact expandCase_spec hx
  | _ => exact endBranch_spec _ ht

end Conditionals

/-! ## Opening streams -/

/-- A text is read again, if there is room for it. -/
theorem checkedText_spec (text : Env Meaning → String) (name : String) :
    Spec D P (do checkInputDepth; pushText (text (← env)) name) fun _ => True := by
  have hafter : ∀ m : Machine, ∃ es, Eng.after (do pushText (text (← env)) name) m =
      Machine.note { m with input := m.input.pushText (text m.env) name } es := by
    intro m
    obtain ⟨es, hopen⟩ := pushText_apply (text m.env) name m
    exact ⟨es, after_of_ok hopen⟩
  refine checked_spec (env_spec.seq fun _ => pushText_spec ..) (fun m hroom => ?_) fun m => ?_
  · obtain ⟨es, hm⟩ := hafter m
    rw [hm]
    exact .of_change rfl (.openText (text m.env) name hroom)
  · obtain ⟨es, hm⟩ := hafter m
    rw [hm]
    rfl

/-- A file is read, if there is room for it. -/
theorem checkedFile_spec (name : String) (t : Token) :
    Spec D P (do
      checkInputDepth
      tryCatch (includeFile name) fun _ => failAt .fileNotFound t [name]) fun _ => True := by
  have hafter : ∀ m : Machine, ∃ src es,
      (src = m.input ∨ ∃ r, m.input.includeFile m.files name = .ok (src, r)) ∧
        Eng.after (tryCatch (includeFile name) fun _ => failAt .fileNotFound t [name]) m =
          Machine.note { m with input := src } es := by
    intro m
    obtain ⟨es, hopen⟩ := includeFile_apply name m
    unfold after
    rw [tryCatch_apply, hopen]
    cases hfile : m.input.includeFile m.files name with
    | ok p => exact ⟨p.1, es, .inr ⟨p.2, rfl⟩, rfl⟩
    | error f => exact ⟨m.input, es, .inl rfl, rfl⟩
  refine checked_spec (.tryCatch (includeFile_spec name) fun _ => failAt_spec ..)
    (fun m hroom => ?_) fun m => ?_
  · obtain ⟨src, es, hsrc, hm⟩ := hafter m
    rw [hm]
    rcases hsrc with rfl | ⟨r, hfile⟩
    · exact .of_input_eq rfl rfl
    · exact .of_change rfl (.openFile hroom hfile)
  · obtain ⟨src, es, -, hm⟩ := hafter m
    rw [hm]
    rfl

/-! ## Expandable primitives -/

section Expanding

variable (hx : x.KeepsTo D)

include hx

theorem expandAfter_spec : Spec D P x.expandAfter fun _ => True := by
  refine token?_spec.required fun first => token?_spec.required fun second => ?_
  refine isFrozen_spec.seq fun frozen => ?_
  extract_lets finish
  have hfinish : ∀ μ?, Spec D (((P ∧ first.Legal) ∧ second.Legal) ∧ ∀ μ ∈ μ?, μ.Legal)
      (finish μ?) fun _ => True := by
    intro μ?
    dsimp only [finish]
    split
    · rename_i μ hμ
      obtain ⟨hmem, -⟩ := Option.filter_eq_some_iff.mp hμ
      -- The deeper expansion: its token and its meaning are legal as they were read here.
      refine Spec.seq (hx (fun hP => hP.2 μ hmem) fun hP => hP.1.2) fun _ => ?_
      exact pushBack_spec fun hP => hP.1.1.2
    · exact push_spec fun hP => by simpa using ⟨hP.1.1.2, hP.1.2⟩
  split
  · exact (meaning?_spec second).bind hfinish
  · exact Spec.bind (.pure fun _ => by simp) hfinish

omit hx in
theorem markNext_spec : Spec D P markNext fun _ => True := by
  refine token?_spec.required fun t => ?_
  have hpush : Spec D (P ∧ t.Legal) (push [t]) fun _ => True :=
    pushBack_spec fun hP => hP.2
  dsimp only
  split
  · refine (meaning?_spec t).seq fun μ? => ?_
    split
    · refine Spec.seq (modify_spec (fun _ => rfl) (fun _ => rfl) (fun _ => rfl)
        (fun _ => .of_input_eq rfl rfl) ?_) fun _ => hpush
      exact fun _ _ hm => hm.input
    · exact hpush
  · exact hpush

theorem expandCsname_spec : Spec D P x.expandCsname fun _ => True :=
  (scanCsname_spec hx).seq fun name => relaxUndefined_spec name (pushBack_spec fun _ => by simp)

theorem expandFontName_spec : Spec D P x.expandFontName fun _ => True := by
  refine (nextNonSpace?_spec hx).required fun t => (meaning?_spec t).seq fun μ? => ?_
  split
  · exact push_spec fun _ => TokenList.legal_ofText _
  · exact env_spec.seq fun _ => push_spec fun _ => TokenList.legal_ofText _
  · exact refuse_spec (fun hP => hP.2) ..

theorem expandInput_spec (t : Token) : Spec D P (x.expandInput t) fun _ => True :=
  (scanFileName_spec hx).seq fun name => checkedFile_spec name t

theorem expandScanTokens_spec : Spec D P x.expandScanTokens fun _ => True :=
  (scanLeftBrace_spec hx).seq fun _ => scanBalanced_spec.seq fun _ => checkedText_spec _ _

omit hx in
theorem describe_spec (t : Token) : Spec D P (describe t) fun _ => True := by
  unfold describe
  split
  · refine (meaning?_spec t).seq fun μ? => ?_
    split
    · exact .done
    · exact env_spec.seq fun _ => .done
  · exact .done

omit hx in
theorem stringTokens_spec {t : Token} (ht : P → t.Legal) :
    Spec D P (stringTokens t) TokenList.Legal := by
  unfold stringTokens
  split
  · exact (showToken_spec t).seq fun _ => .pure fun _ => TokenList.legal_ofText _
  · split
    · exact .pure fun _ => by simp
    · exact .pure fun hP => TokenList.legal_cons.mpr ⟨ht hP, TokenList.legal_nil⟩

theorem expandPrimitive_spec (p : Expandable) (t : Token) :
    Spec D P (x.expandPrimitive p t) fun _ => True := by
  have hpushText : ∀ {P : Prop} (text : String), Spec D P (push (TokenList.ofText text))
      fun _ => True :=
    fun text => push_spec fun _ => TokenList.legal_ofText text
  cases p with
  | expandafter => exact expandAfter_spec hx
  | noexpand => exact markNext_spec
  | csname => exact expandCsname_spec hx
  | string =>
    exact token?_spec.required fun t => (stringTokens_spec fun hP => hP.2).bind fun _ =>
      push_spec fun hP => hP.2
  | number => exact (scanInteger_spec hx).seq fun _ => hpushText _
  | romannumeral => exact (scanInteger_spec hx).seq fun _ => hpushText _
  | the => exact (theTokens_spec hx).bind fun _ => push_spec fun hP => hP.2
  | meaning => exact token?_spec.required fun t => (describe_spec t).seq fun _ => hpushText _
  | jobname => exact get_spec.seq fun _ => hpushText _
  | fontname => exact expandFontName_spec hx
  | input => exact expandInput_spec hx t
  | endinput =>
    exact modify_spec (fun _ => rfl) (fun _ => rfl) (fun _ => rfl)
      (fun _ => .of_change rfl .endInput) fun _ _ hm => Source.endInput_legal hm.input
  | scantokens => exact expandScanTokens_spec hx

/-! ## Expansion -/

section Conditionals

variable (hconditional : ∀ {P : Prop} (p : CondPrimitive) {t : Token}, (P → t.Legal) →
  Spec D P (x.expandConditional p t) fun _ => True)

include hconditional

theorem perform_spec {μ : Meaning} (hμ : P → μ.Legal) {t : Token} (ht : P → t.Legal) :
    Spec D P (x.perform μ t) fun _ => True := by
  cases μ with
  | expandable p => exact expandPrimitive_spec hx p t
  | conditional p => exact hconditional p ht
  | defined d => exact MacroDef.call_spec x.fuel hμ t
  | _ => exact .done

theorem step_spec {μ : Meaning} (hμ : P → μ.Legal) {t : Token} (ht : P → t.Legal) :
    Spec D P (step x μ t) fun _ => True := by
  refine .blame t ((perform_spec hx hconditional hμ ht).seq fun _ => get_spec.seq fun m => ?_)
  split
  · exact fail_spec ..
  · exact .done

end Conditionals

end Expanding

/-- Expansion keeps to its discipline, however deep expansions may be nested. -/
theorem ofDepth_keepsTo (D : Discipline) [Branching D] (fuel depth : Nat) :
    (ofDepth fuel depth).KeepsTo D := by
  induction depth with
  -- No level is left: the expansion is refused, and the state stays as it was.
  | zero => exact fun _ _ => nested_spec (.blame _ (fail_spec ..))
  | succ depth ih =>
    exact fun hμ ht => nested_spec (step_spec ih (expandConditional_spec ih) hμ ht)

theorem ofDepth_disciplined (fuel depth : Nat) : (ofDepth fuel depth).Disciplined :=
  ofDepth_keepsTo expanding fuel depth

end Expander

end TexEngine
