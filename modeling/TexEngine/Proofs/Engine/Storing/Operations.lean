/-
  TexEngine.Proofs.Engine.Storing.Operations

  The discipline by which states stay well formed, and the specifications of the basic
  operations.

  A font is well formed if its serial number lies below a bound.  The bound is fixed for
  the whole run, from the number of fonts at its end: a state is good as long as no more
  fonts have been loaded.
-/
import TexEngine.Proofs.Engine.Discipline
import TexEngine.Proofs.Engine.Storing.State

namespace TexEngine

/-- The discipline of everything that the engine does: states stay well formed, fonts are
    only added, and what counts as a letter stays the same. -/
def Discipline.storing (n : Nat) : Discipline where
  rel := fun m m' =>
    m'.env.unicodeLetters = m.env.unicodeLetters ∧ m.env.fonts.next ≤ m'.env.fonts.next
  refl := fun _ => ⟨rfl, Nat.le_refl _⟩
  trans := fun h h' => ⟨h'.1.trans h.1, Nat.le_trans h.2 h'.2⟩
  good := fun m => m.env.fonts.next ≤ n
  good_of_rel := fun h hgood => Nat.le_trans h.2 hgood
  inv := Machine.WellFormed n

namespace Eng

open Discipline

variable {α : Type} {n : Nat} {P : Prop} {Q : α → Prop}

/-! ## Basic operations -/

theorem env_keeps : Spec (storing n) P env (Env.WellFormed n) :=
  Spec.get.bind fun _ => .pure fun hP => hP.2.env

theorem isFrozen_keeps : Spec (storing n) P isFrozen fun _ => True :=
  Spec.get.bind fun _ => .done

/-- A change that does not concern the environment. -/
theorem modify_keeps {g : Machine → Machine} (henv : ∀ m, (g m).env = m.env)
    (hinput : P → ∀ m, m.WellFormed n → (g m).input.ParameterFree) :
    Spec (storing n) P (modify g) fun _ => True := by
  refine .modify (fun m => ?_) fun hP m hm _ => ⟨henv m ▸ hm.env, hinput hP m hm⟩
  show (g m).env.unicodeLetters = m.env.unicodeLetters ∧ m.env.fonts.next ≤ (g m).env.fonts.next
  rw [henv]
  exact ⟨rfl, Nat.le_refl _⟩

/-- A change that concerns neither the environment nor the input. -/
theorem modifyRest_keeps {g : Machine → Machine} (henv : ∀ m, (g m).env = m.env)
    (hinput : ∀ m, (g m).input = m.input) : Spec (storing n) P (modify g) fun _ => True :=
  modify_keeps henv fun _ m hm => hinput m ▸ hm.input

theorem emit_keeps (e : Event) : Spec (storing n) P (emit e) fun _ => True :=
  modifyRest_keeps (fun _ => rfl) fun _ => rfl

theorem trace_keeps (level : TraceLevel) (tracer : Tracer) (text : Unit → String) :
    Spec (storing n) P (trace level tracer text) fun _ => True := by
  refine Spec.get.bind fun m => ?_
  cases m.traceLevel with
  | none => exact .done
  | some wanted =>
    dsimp only
    split
    · exact emit_keeps _
    · exact .done

theorem opened_keeps (name : String) (isFile : Bool) :
    Spec (storing n) P (opened name isFile) fun _ => True :=
  (trace_keeps ..).seq fun _ => emit_keeps _

theorem push_keeps {ts : TokenList} (h : P → ts.ParameterFree) :
    Spec (storing n) P (push ts) fun _ => True :=
  modify_keeps (fun _ => rfl) fun hP _ hm => Source.push_parameterFree hm.input (h hP)

theorem pushBack_keeps {t : Token} (h : P → t.isParam = false) :
    Spec (storing n) P (push [t]) fun _ => True :=
  push_keeps fun hP => TokenList.parameterFree_cons.mpr ⟨h hP, TokenList.parameterFree_nil⟩

theorem pushText_keeps (text name : String) :
    Spec (storing n) P (pushText text name) fun _ => True := by
  have hpush : Spec (storing n) P
      (modify fun m => { m with input := m.input.pushText text name } : Eng Unit) fun _ => True :=
    modify_keeps (fun _ => rfl) fun _ _ hm => Source.pushReader_parameterFree hm.input _
  exact hpush.seq fun _ => opened_keeps ..

theorem includeFile_keeps (fileName : String) :
    Spec (storing n) P (includeFile fileName) fun _ => True := by
  refine Spec.get.bind fun m => (emit_keeps _).seq fun _ => ?_
  cases hinclude : m.input.includeFile m.files fileName with
  | error f => exact .throw f
  | ok p =>
    obtain ⟨src, r⟩ := p
    refine Spec.seq (modify_keeps (fun _ => rfl) fun hP _ _ => ?_) fun _ => opened_keeps ..
    exact Source.includeFile_parameterFree hP.2.input hinclude

theorem checkInputDepth_keeps : Spec (storing n) P checkInputDepth fun _ => True := by
  refine Spec.get.bind fun m => ?_
  split
  · exact fail_spec ..
  · exact .done

theorem meaning?_keeps (t : Token) :
    Spec (storing n) P (meaning? t) fun μ? => ∀ μ ∈ μ?, μ.WellFormed n := by
  constructor
  intro m
  rw [meaning?_apply]
  exact ⟨(storing n).refl m, fun _ hm _ => ⟨hm, hm.env.meaning? t⟩⟩

theorem showToken_keeps (t : Token) : Spec (storing n) P (showToken t) fun _ => True :=
  env_keeps.seq fun _ => .done

theorem observe_keeps (fits : Bool) : Spec (storing n) P (observe fits) fun _ => True := by
  cases fits with
  | true => exact .done
  | false => exact modifyRest_keeps (fun _ => rfl) fun _ => rfl

theorem observeLevel_keeps (k : Nat) : Spec (storing n) P (observeLevel k) fun _ => True :=
  modifyRest_keeps (fun _ => rfl) fun _ => rfl

/-! ## Changing the environment -/

/-- A change that adds fonts at most. -/
theorem modifyEnv_keeps {f : Env Meaning → Env Meaning}
    (hletters : ∀ env, (f env).unicodeLetters = env.unicodeLetters)
    (hfonts : ∀ env, env.fonts.next ≤ (f env).fonts.next)
    (hf : P → ∀ env, env.WellFormed n → (f env).WellFormed n) :
    Spec (storing n) P (modifyEnv f) fun _ => True :=
  .modify (fun m => ⟨hletters m.env, hfonts m.env⟩)
    fun hP m hm _ => ⟨hf hP m.env hm.env, hm.input⟩

/-- A change of what is at places, or of what waits for the end of groups. -/
theorem modifyPlaces_keeps {f : Env Meaning → Env Meaning}
    (hlasting : ∀ env, (f env).lasting = env.lasting)
    (hf : P → ∀ env, env.WellFormed n → (f env).WellFormed n) :
    Spec (storing n) P (modifyEnv f) fun _ => True := by
  refine modifyEnv_keeps (fun env => ?_) (fun env => ?_) hf
  · exact congrArg Prod.fst (hlasting env)
  · exact Nat.le_of_eq (congrArg (FontBook.next ·.2.1) (hlasting env).symm)

theorem assign_keeps {a : Assignment Meaning} (ha : P → a.WellFormed n) (global : Bool) :
    Spec (storing n) P (assign a global) fun _ => True :=
  modifyPlaces_keeps (fun _ => Env.lasting_assign ..) fun hP _ henv => henv.assign (ha hP) global

/-- A change of the conditional stack only. -/
theorem modifyConditionals_keeps (f : Array Conditional → Array Conditional) :
    Spec (storing n) P
      (modifyEnv fun env => { env with conditionals := f env.conditionals }) fun _ => True :=
  modifyPlaces_keeps (fun _ => rfl) fun _ _ henv => henv.withConditionals _

/-! ## Reading -/

theorem rawToken_keeps :
    Spec (storing n) P rawToken fun t? => ∀ t ∈ t?, t.isParam = false := by
  constructor
  intro m
  have hnext := fun h : m.WellFormed n => Source.next_parameterFree m.env.lexicon h.input
  rw [rawToken_apply]
  dsimp only
  cases hresult : (m.input.next m.env.lexicon).result with
  | error f => exact ⟨⟨rfl, Nat.le_refl _⟩, fun _ hm _ => ⟨hm.env, (hnext hm).2⟩⟩
  | ok t? =>
    refine ⟨⟨rfl, Nat.le_refl _⟩, fun _ hm _ => ⟨⟨hm.env, (hnext hm).2⟩, fun t ht => ?_⟩⟩
    exact (hnext hm).1 t (by rw [hresult, Option.mem_def.mp ht])

theorem token?_keeps : Spec (storing n) P token? fun t? => ∀ t ∈ t?, t.isParam = false := by
  constructor
  intro m
  have hraw := (rawToken_keeps (n := n) (P := P)).holds m
  unfold token?
  cases hread : rawToken m with
  | ok t? m' =>
    rw [hread] at hraw
    refine ⟨hraw.1, fun hP hm hgood => ?_⟩
    obtain ⟨hm', ht⟩ := hraw.2 hP hm hgood
    exact ⟨⟨hm'.env, hm'.input⟩, ht⟩
  | error f m' =>
    rw [hread] at hraw
    refine ⟨hraw.1, fun hP hm hgood => ?_⟩
    have hm' := hraw.2 hP hm hgood
    exact ⟨hm'.env, hm'.input⟩

/-- Refusing a token, which is put back. -/
theorem refuse_keeps {t : Token} (h : P → t.isParam = false) (kind : ErrorKind) (t' : Token)
    (details : List String) :
    Spec (storing n) P (do push [t]; failAt kind t' details : Eng α) Q :=
  (pushBack_keeps h).seq fun _ => failAt_spec ..

end Eng

end TexEngine
