/-
  TexEngine.Proofs.Engine.Branch

  The steps of a conditional.  `Machine.within` is the machine inside of one more
  conditional; the operations on the conditional stack are equations about it.
  Skipping looks at one token at a time: `skipOutcome` says what each primitive
  does to the number of open conditionals, and all other tokens are passed over.
-/
import TexEngine.Proofs.Engine.Depth.Expand
import TexEngine.Proofs.Engine.Scan.Integer

namespace TexEngine

open Eng

/-! ## Inside of a conditional -/

/-- The machine inside of one more conditional. -/
def Machine.within (m : Machine) (c : Conditional) : Machine :=
  { m with env := { m.env with conditionals := m.env.conditionals.push c } }

namespace Machine

-- Reading comes first, then the stack, then the events: this is the order in which
-- machines are written below.
@[simp] theorem within_feed (m : Machine) (ts : TokenList) (c : Conditional) :
    (m.feed ts).within c = (m.within c).feed ts := rfl

@[simp] theorem note_within (m : Machine) (c : Conditional) (es : List Event) :
    (m.within c).note es = (m.note es).within c := rfl

@[simp] theorem ready_within (m : Machine) (c : Conditional) :
    (m.within c).ready = m.ready.within c := rfl

@[simp] theorem marked_within (m : Machine) (c : Conditional) : (m.within c).marked = m.marked :=
  rfl

theorem pending_feed (m : Machine) (ts : TokenList) :
    (m.feed ts).input.pending = m.input.pending + ts.length := by
  unfold feed Source.feed
  cases m.input.streams <;> rfl

end Machine

namespace Eng

theorem modifyConditional_within (m : Machine) (c : Conditional) (ts : TokenList)
    (f : Conditional → Conditional) :
    modifyConditional m.env.conditionals.size f ((m.within c).feed ts) =
      .ok () ((m.within (f c)).feed ts) := by
  have hmodify : (m.env.conditionals.push c).modify m.env.conditionals.size f =
      m.env.conditionals.push (f c) := by
    apply Array.ext
    · simp
    · intro i hi hi'
      rw [Array.getElem_modify, Array.getElem_push, Array.getElem_push]
      rw [Array.size_push] at hi'
      by_cases h : i < m.env.conditionals.size
      · rw [dif_pos h, dif_pos h, if_neg (by omega)]
      · rw [dif_neg h, dif_neg h, if_pos (by omega)]
  show EStateM.Result.ok () _ = _
  simp only [Machine.within, Machine.feed, hmodify]

theorem popConditional_within (m : Machine) (c : Conditional) (ts : TokenList) :
    popConditional ((m.within c).feed ts) = .ok () (m.feed ts) := by
  show EStateM.Result.ok () _ = _
  simp only [Machine.within, Machine.feed, Array.pop_push]

end Eng

namespace Expander

variable {m m' : Machine}

/-- The record of a conditional whose test is being evaluated. -/
def opening (locator : Locator) (name : String) (isCase : Bool) : Conditional :=
  { locator, primitive := name, pending := true, isCase }

/-- A conditional is opened with a pending record. -/
theorem openConditional_apply (name : String) (isCase : Bool) (m : Machine) :
    ∃ es, openConditional name isCase m =
      .ok m.env.conditionals.size ((m.note es).within (opening m.input.locator name isCase)) := by
  let m' := m.within (opening m.input.locator name isCase)
  have hpush : openConditional name isCase m = (do
      if (← env).count "tracingcommands" > 1 then
        trace .info .engine fun _ =>
          "\x7b\\" ++ name ++ ": (level " ++ toString (m.env.conditionals.size + 1) ++ ")\x7d"
      return m.env.conditionals.size : Eng Nat) m' := rfl
  rw [hpush, bind_of_ok (env_apply m')]
  by_cases htracing : m'.env.count "tracingcommands" > 1
  · simp only [htracing, if_true]
    rw [bind_of_ok (trace_apply ..)]
    exact ⟨_, rfl⟩
  · simp only [htracing, if_false]
    exact ⟨[], rfl⟩

theorem openConditional_feed (name : String) (isCase : Bool) (m : Machine) (ts : TokenList) :
    ∃ es locator, openConditional name isCase (m.feed ts) =
      .ok m.env.conditionals.size
        (((m.note es).within (opening locator name isCase)).feed ts) := by
  obtain ⟨es, hopen⟩ := openConditional_apply name isCase (m.feed ts)
  exact ⟨es, _, hopen⟩

/-- A test that succeeds leaves its conditional open. -/
theorem whilePending_of_ok {α : Type} {act : Eng α} {a : α} {c : Conditional} {ts us : TokenList}
    (h : act ((m.within c).feed ts) = .ok a ((m.within c).feed us)) :
    whilePending m.env.conditionals.size act ((m.within c).feed ts) =
      .ok a ((m.within { c with pending := false }).feed us) := by
  have hcatch : ∀ handler : Fault → Eng α,
      (tryCatch act handler) ((m.within c).feed ts) = .ok a ((m.within c).feed us) := by
    intro handler
    show EStateM.tryCatch act handler _ = _
    unfold EStateM.tryCatch
    simp only [h]
  unfold whilePending
  rw [bind_of_ok (hcatch _), bind_of_ok (modifyConditional_within ..)]
  rfl

/-! ## Skipping -/

/-- One round of `skipBranch`. -/
def skipStep (i : Nat) (cases : Bool) (depth : Nat) : Eng (Step Nat BranchEnd) := do
  match ← rawToken with
  | none =>
    let c := ((← env).conditionals[i]?).getD {}
    failHere .runawayConditional ["\\" ++ c.primitive, "opened at", c.locator.text]
  | some t =>
    match ← if t.isCommand then meaning? t else pure none with
    | some (.conditional p) =>
      match p, depth with
      | .test _, depth => return .again (depth + 1)
      | .ifCase, depth => return .again (depth + 1)
      | .endIf, 0 => return .done .endIf
      | .endIf, depth + 1 => return .again depth
      | .orElse, 0 => return .done .orElse
      | .orCase, 0 => return if cases then .done .orCase else .again 0
      | _, depth => return .again depth
    | _ => return .again depth

theorem skipBranch_eq_iterate (x : Expander) (i : Nat) (cases : Bool) :
    x.skipBranch i cases = iterate (skipStep i cases) x.fuel 0 := rfl

/-- What a primitive does to the number of open conditionals in skipped text. -/
def skipOutcome (cases : Bool) : CondPrimitive → Nat → Step Nat BranchEnd
  | .test _, depth => .again (depth + 1)
  | .ifCase, depth => .again (depth + 1)
  | .orElse, 0 => .done .orElse
  | .orElse, depth + 1 => .again (depth + 1)
  | .orCase, 0 => if cases then .done .orCase else .again 0
  | .orCase, depth + 1 => .again (depth + 1)
  | .endIf, 0 => .done .endIf
  | .endIf, depth + 1 => .again depth

/-- The primitive of conditionals that is the meaning of a token, if it is one. -/
def conditionalIn (env : Env Meaning) (t : Token) : Option CondPrimitive :=
  match meaningIn env t with
  | some (.conditional p) => some p
  | _ => none

theorem conditionalIn_of_meaningIn {env : Env Meaning} {t : Token} {p : CondPrimitive}
    (h : meaningIn env t = some (.conditional p)) : conditionalIn env t = some p := by
  unfold conditionalIn
  rw [h]

/-- Nothing is looked up for a character that is not active. -/
theorem meaningIn_of_not_isCommand {env : Env Meaning} {t : Token} (h : t.isCommand = false) :
    meaningIn env t = none := by
  obtain ⟨hcs, hactive⟩ := Bool.or_eq_false_iff.mp h
  have ht : t ≠ .frozenRelax := by
    rintro rfl
    contradiction
  rw [meaningIn, if_neg ht, Env.meaning?, if_neg (by simp [hcs]), if_neg (by simp [hactive])]

theorem conditionalIn_of_unexpandable {env : Env Meaning} {t : Token} (h : Unexpandable env t) :
    conditionalIn env t = none := by
  unfold conditionalIn
  cases hcommand : t.isCommand with
  | false => rw [meaningIn_of_not_isCommand hcommand]
  | true =>
    cases hmeaning : meaningIn env t with
    | none => rfl
    | some μ =>
      have hμ := h hcommand μ hmeaning
      cases μ <;> first | rfl | simp [Meaning.isExpandable] at hμ

/-- What a token does to the number of open conditionals in skipped text. -/
def tokenOutcome (env : Env Meaning) (cases : Bool) (t : Token) (depth : Nat) :
    Step Nat BranchEnd :=
  match conditionalIn env t with
  | some p => skipOutcome cases p depth
  | none => .again depth

/-- A round reads one token, and looks at its meaning only. -/
theorem skipStep_of_rawToken (i : Nat) (cases : Bool) (depth : Nat) {t : Token}
    (h : rawToken m = .ok (some t) m') :
    skipStep i cases depth m = .ok (tokenOutcome m'.env cases t depth) m' := by
  unfold skipStep tokenOutcome conditionalIn
  rw [bind_of_ok h]
  dsimp only
  cases hcommand : t.isCommand with
  | false =>
    rw [meaningIn_of_not_isCommand hcommand]
    rfl
  | true =>
    simp only [if_true]
    rw [bind_of_ok (meaning?_apply t m')]
    cases meaningIn m'.env t with
    | none => rfl
    | some μ =>
      cases μ with
      | conditional p =>
        -- Only the primitives that end a branch look at the depth.
        cases p with
        | test c => rfl
        | ifCase => rfl
        | orElse => cases depth <;> rfl
        | orCase => cases depth <;> rfl
        | endIf => cases depth <;> rfl
      | _ => rfl

theorem skipStep_conditional (i : Nat) (cases : Bool) (depth : Nat) (m : Machine) {t : Token}
    {p : CondPrimitive} (ts : TokenList) (hmeaning : meaningIn m.env t = some (.conditional p)) :
    skipStep i cases depth (m.feed (t :: ts)) = .ok (skipOutcome cases p depth) (m.feed ts) := by
  rw [skipStep_of_rawToken i cases depth (rawToken_feed_cons m t ts), tokenOutcome,
    Machine.env_feed, conditionalIn_of_meaningIn hmeaning]

/-- Tokens that cannot be expanded are passed over. -/
theorem skipStep_unexpandable (i : Nat) (cases : Bool) (depth : Nat) (m : Machine) {t : Token}
    (ts : TokenList) (ht : Unexpandable m.env t) :
    skipStep i cases depth (m.feed (t :: ts)) = .ok (.again depth) (m.feed ts) := by
  rw [skipStep_of_rawToken i cases depth (rawToken_feed_cons m t ts), tokenOutcome,
    Machine.env_feed, conditionalIn_of_unexpandable ht]

theorem iterate_skipStep_tokens (i : Nat) (cases : Bool) (depth n : Nat) (m : Machine)
    (us ts : TokenList) (hus : ∀ t ∈ us, Unexpandable m.env t) :
    iterate (skipStep i cases) (n + us.length) depth (m.feed (us ++ ts)) =
      iterate (skipStep i cases) n depth (m.feed ts) := by
  induction us with
  | nil => rfl
  | cons t us ih =>
    rw [List.forall_mem_cons] at hus
    rw [List.cons_append, List.length_cons, ← Nat.add_assoc,
      iterate_of_again (skipStep_unexpandable i cases depth m _ hus.1), ih hus.2]

/-- One round of `skipToFi`. -/
def fiStep (x : Expander) (i : Nat) (_ : Unit) : Eng (Step Unit Unit) := do
  match ← x.skipBranch i false with
  | .endIf =>
    popConditional
    return .done ()
  | _ => return .again ()

theorem fiStep_endIf (x : Expander) {i : Nat} {ts us : TokenList} (m : Machine) (c : Conditional)
    (h : x.skipBranch i false ((m.within c).feed ts) = .ok .endIf ((m.within c).feed us)) :
    x.fiStep i () ((m.within c).feed ts) = .ok (.done ()) (m.feed us) := by
  unfold fiStep
  rw [bind_of_ok h]
  exact bind_of_ok (popConditional_within m c us) _

theorem fiStep_orElse (x : Expander) {i : Nat} (h : x.skipBranch i false m = .ok .orElse m') :
    x.fiStep i () m = .ok (.again ()) m' := by
  unfold fiStep
  rw [bind_of_ok h]
  rfl

/-- One round of `skipCases`. -/
def casesStep (x : Expander) (i : Nat) (n : Int64) : Eng (Step Int64 Unit) := do
  if n ≤ 0 then
    enterBranch i
    return .done ()
  match ← x.skipBranch i true with
  | .endIf =>
    popConditional
    return .done ()
  | .orElse =>
    enterElse i
    return .done ()
  | .orCase => return .again (n - 1)

theorem skipCases_eq_iterate (x : Expander) (i : Nat) (n : Int64) :
    x.skipCases i n = iterate (x.casesStep i) x.fuel n := rfl

/-! ## The end of a branch -/

theorem back?_within (m : Machine) (c : Conditional) (ts : TokenList) :
    ((m.within c).feed ts).env.conditionals.back? = some c := by
  simp [Machine.feed, Machine.within]

theorem endBranch_endIf (x : Expander) (t : Token) (m : Machine) {c : Conditional}
    (ts : TokenList) (hpending : c.pending = false) :
    x.endBranch .endIf t ((m.within c).feed ts) = .ok () (m.feed ts) := by
  unfold endBranch
  rw [bind_of_ok (env_apply _), back?_within]
  simp only [Option.any_some, hpending, Bool.false_eq_true, if_false, if_true]
  exact popConditional_within m c ts

theorem endBranch_orElse (x : Expander) (t : Token) (m : Machine) {c : Conditional}
    (ts : TokenList) (hpending : c.pending = false) (helse : c.inElse = false) :
    x.endBranch .orElse t ((m.within c).feed ts) = x.skipToFi ((m.within c).feed ts) := by
  unfold endBranch
  rw [bind_of_ok (env_apply _), back?_within]
  simp only [helse, Option.any_some, hpending, Bool.false_eq_true, if_false, reduceCtorEq]

theorem endBranch_orCase (x : Expander) (t : Token) (m : Machine) {c : Conditional}
    (ts : TokenList) (hpending : c.pending = false) (helse : c.inElse = false)
    (hcase : c.isCase = true) :
    x.endBranch .orCase t ((m.within c).feed ts) = x.skipToFi ((m.within c).feed ts) := by
  unfold endBranch
  rw [bind_of_ok (env_apply _), back?_within]
  simp only [helse, hcase, Option.any_some, hpending, Bool.not_true, Bool.or_self,
    Bool.false_eq_true, if_false, reduceCtorEq]

/-! ## One expansion -/

/-- An expansion succeeds where the limits are kept. -/
theorem expand_ofDepth {μ : Meaning} {t : Token} (fuel depth : Nat)
    (h : (ofDepth fuel depth).perform μ t m = .ok () m')
    (hpending : m'.input.pending ≤ m'.limits.pushback) :
    (ofDepth fuel (depth + 1)).expand μ t m = .ok () m' := by
  rw [ofDepth_succ]
  show step (ofDepth fuel depth) μ t m = .ok () m'
  unfold step blame
  rw [bind_of_ok h, bind_of_ok (get_apply m'), if_neg (by omega)]
  rfl

end Expander

end TexEngine
