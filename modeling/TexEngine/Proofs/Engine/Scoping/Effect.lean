/-
  TexEngine.Proofs.Engine.Scoping.Effect

  Assignments in two parts.  A command that assigns first reads what it needs, and then
  gives a place a value; what it has read is an `Effect`, and performing the effect is the
  only part of the command in which its own assignment is made.  For each command, this is
  an equation between the command and the two parts.

  The scope of the assignment is that of \global or \globaldefs, except that \gdef and
  \xdef are global unless \globaldefs is negative (`Machine.assignsGlobally`).
-/
import TexEngine.Engine.Execute
import TexEngine.Proofs.Engine.Reading
import TexEngine.Proofs.Env.Scopes

namespace TexEngine

open Eng

/-- A sequence depends on its first part only through what this does in the given state. -/
theorem Eng.bind_congr_of_apply_eq {α β : Type} {act act' : Eng α} {m : Machine}
    (h : act m = act' m) (f : α → Eng β) : (act >>= f) m = (act' >>= f) m := by
  show EStateM.bind act f m = EStateM.bind act' f m
  simp only [EStateM.bind, h]

/-! ## Effects -/

/-- What is left to do when everything has been read: a place is given a value, if any, and
    then the rest is done. -/
structure Effect where
  setting : Option (Setting Meaning) := none
  rest : Eng Unit := pure ()

/-- Performs an effect, with an assignment that is global or not. -/
def Effect.perform (e : Effect) (global : Bool) : Eng Unit := do
  match e.setting with
  | some s => assign s.assignment global
  | none => pure ()
  e.rest

namespace Effect

/-- The effect of an assignment, and of nothing else. -/
def set (s : Setting Meaning) : Effect where
  setting := some s

theorem perform_set (s : Setting Meaning) (global : Bool) :
    (set s).perform global = assign s.assignment global :=
  bind_pure_unit

end Effect

/-! ## Scopes -/

/-- The command makes global definitions unless \globaldefs is negative. -/
def Meaning.isAlwaysGlobal : Meaning → Bool
  | assigner (.define alwaysGlobal _) => alwaysGlobal
  | _ => false

/-- The scope that an assignment is told by \globaldefs or \global. -/
def Machine.givenScope (m : Machine) : Bool :=
  if m.env.count "globaldefs" ≠ 0 then m.env.count "globaldefs" > 0 else m.modifiers.isGlobal

/-- The scope in which a command with the given meaning performs its assignment. -/
def Machine.assignsGlobally (m : Machine) (μ : Meaning) : Bool :=
  match μ with
  | .assigner (.define alwaysGlobal _) =>
    m.givenScope || (alwaysGlobal && m.env.count "globaldefs" ≥ 0)
  | _ => m.givenScope

/-- \globaldefs decides unless it is zero; then \global does, and \gdef and \xdef are always
    global. -/
theorem Machine.assignsGlobally_iff (m : Machine) (μ : Meaning) :
    m.assignsGlobally μ = true ↔ 0 < m.env.count "globaldefs" ∨
      m.env.count "globaldefs" = 0 ∧ (m.modifiers.isGlobal = true ∨ μ.isAlwaysGlobal = true) := by
  have hgiven : m.givenScope = true ↔ 0 < m.env.count "globaldefs" ∨
      m.env.count "globaldefs" = 0 ∧ m.modifiers.isGlobal = true := by
    unfold givenScope
    by_cases hzero : m.env.count "globaldefs" = 0
    · rw [if_neg (not_not.mpr hzero), hzero]
      simp
    · rw [if_pos hzero]
      simp [hzero]
  -- Only \gdef and \xdef do not ask the modifiers; a negative \globaldefs goes before all of
  -- them.
  by_cases halways : μ.isAlwaysGlobal = true
  · obtain ⟨expand, rfl⟩ : ∃ expand, μ = .assigner (.define true expand) := by
      unfold Meaning.isAlwaysGlobal at halways
      split at halways
      · exact ⟨_, by rw [halways]⟩
      · contradiction
    have hscope : m.assignsGlobally (.assigner (.define true expand)) =
        (m.givenScope || (true && m.env.count "globaldefs" ≥ 0)) := rfl
    have horder : 0 ≤ m.env.count "globaldefs" ↔
        0 < m.env.count "globaldefs" ∨ m.env.count "globaldefs" = 0 := by
      rw [Int64.le_iff_toInt_le, Int64.lt_iff_toInt_lt, ← Int64.toInt_inj, Int64.toInt_zero]
      omega
    rw [hscope, Bool.or_eq_true, hgiven, Bool.true_and, decide_eq_true_eq, ge_iff_le, horder,
      or_iff_right_of_imp (Or.imp_right And.left)]
    simp [halways]
  · have hscope : m.assignsGlobally μ = m.givenScope := by
      unfold assignsGlobally
      split
      · simp_all [Meaning.isAlwaysGlobal]
      · rfl
    rw [hscope, hgiven]
    simp [halways]

/-- Inserts the token that was saved for the end of an assignment. -/
def Eng.insertAfterAssignment : Eng Unit := do
  match (← env).afterAssignment with
  | some t =>
    modifyEnv fun env => { env with afterAssignment := none }
    push [t]
  | none => pure ()

theorem Expander.assigning_apply (act : Bool → Eng Unit) (m : Machine) :
    assigning act m = (act m.givenScope >>= fun _ => insertAfterAssignment) m :=
  rfl

/-! ## What commands read -/

/-- The effect of writing a value into a cell.  The parameters of fonts are no places. -/
def Cell.effect (cell : Cell) (v : Value) : Eng Effect :=
  match cell, v with
  | register .count name, .int n => return .set ⟨.count name, n⟩
  | register .dimen name, .dimen d => return .set ⟨.dimen name, d⟩
  | register .skip name, .glue g => return .set ⟨.glue name, g⟩
  | register .toks name, .toks ts => return .set ⟨.toks name, ts⟩
  | catcode c, .int n =>
    let k := Catcode.ofInt n.toInt
    if k.isValid then return .set ⟨.catcode c, k⟩
    else fail .badCatcode [Count.text n]
  | charCode table c, .int n =>
    let (low, high) := table.range
    if n < low ∨ n > high then fail .badCatcode [Count.text n]
    else return .set ⟨.charCode table c, n⟩
  | fontDimen f n, .dimen d =>
    return { rest := modifyEnv fun env =>
      { env with fonts := env.fonts.setParam f n.toInt d } }
  | _, _ => return {}

theorem Cell.write_eq_effect (cell : Cell) (v : Value) (global : Bool) :
    cell.write v global = (do (← cell.effect v).perform global) := by
  have hset : ∀ s, assign s.assignment global =
      (do (← (pure (.set s) : Eng Effect)).perform global) := by
    intro s
    rw [pure_bind, Effect.perform_set]
  unfold Cell.write
  -- Writing to a cell is an assignment unless the cell checks the value, is a parameter of a
  -- font, or cannot be written.
  split
  · exact hset ⟨.count _, _⟩
  · exact hset ⟨.dimen _, _⟩
  · exact hset ⟨.glue _, _⟩
  · exact hset ⟨.toks _, _⟩
  · rw [Cell.effect]
    dsimp only
    split
    · exact hset ⟨.catcode _, _⟩
    · rfl
  · rw [Cell.effect]
    dsimp only
    split
    · rfl
    · exact hset ⟨.charCode _ _, _⟩
  · rfl
  · rename_i hother
    unfold Cell.effect
    split <;> first | rfl | simp_all

/-- The effect of giving a control sequence or active character a meaning. -/
def Token.binding (t : Token) (μ? : Option Meaning) : Setting Meaning :=
  if t.isActive then ⟨.active t.code, μ?⟩ else ⟨.code t.name, μ?⟩

theorem Token.place_binding (t : Token) (μ? μ?' : Option Meaning) :
    (t.binding μ?).place = (t.binding μ?').place := by
  unfold binding
  split <;> rfl

theorem Env.setMeaning_eq_assign (env : Env Meaning) (t : Token) (μ? : Option Meaning)
    (global : Bool) : env.setMeaning t μ? global = env.assign (t.binding μ?).assignment global := by
  unfold Env.setMeaning Token.binding
  split <;> rfl

namespace Expander

variable {x : Expander}

theorem bind_eq_perform (t : Token) (μ? : Option Meaning) (global : Bool) :
    bind t μ? global = (Effect.set (t.binding μ?)).perform global := by
  rw [Effect.perform_set]
  unfold bind assign
  simp only [Env.setMeaning_eq_assign]

/-! ## What commands read -/

/-- Reads a new value for a quantity. -/
def readQuantity (x : Expander) (μ : Meaning) : Eng Effect := do
  let cell ← x.resolveMutable μ
  x.scanOptionalEquals
  cell.effect (← x.scanValue cell.kind)

/-- Reads a quantity and an operand. -/
def readArithmetic (x : Expander) (op : ArithOp) : Eng Effect := do
  let t ← expect (← x.nextNonSpace?) .missingControlSequence []
  match (← quantity? t).filter (·.2 ≠ .toks) with
  | none => failAt .cantUse t ["after \\" ++ op.name]
  | some (μ, _) =>
    let cell ← x.resolveMutable μ
    let _ ← x.scanKeyword "by"
    let v ← cell.read
    let v ←
      match op with
      | .advance =>
        let w ← x.scanValue cell.kind
        observe (v.addFits w)
        arith (v.add w)
      | .multiply =>
        let n ← x.scanInteger
        observe (v.multiplyFits n)
        arith (v.multiply n)
      | .divide =>
        let n ← x.scanInteger
        observe (v.divideFits n)
        arith (v.divide n)
    cell.effect v

/-- Reads a name and the definition of a macro. -/
def readMacro (x : Expander) (expand : Bool) : Eng Effect := do
  let m ← get
  let t ← x.scanDefinedToken
  let d ← x.scanDefinition t.definedName (expand || m.modifiers.isExpanded)
  let d := { d with isLong := m.modifiers.isLong, isOuter := m.modifiers.isOuter,
                    isProtected := m.modifiers.isProtected }
  return .set (t.binding (some (.defined d)))

/-- Reads a name and a token whose meaning it is to have. -/
def readCopy (x : Expander) : Eng Effect := do
  let t ← x.scanDefinedToken
  let source ← x.scanLetToken
  return .set (t.binding (← tokenMeaning source))

/-- Reads a name, and the token after the next one, whose meaning it is to have. -/
def readCopyNext (x : Expander) : Eng Effect := do
  let t ← x.scanDefinedToken
  let first ← expect (← rawToken) .missingControlSequence []
  let second ← expect (← rawToken) .missingControlSequence []
  push [first, second]
  return .set (t.binding (← tokenMeaning second))

/-- Reads a name and its meaning behind an equals sign.  While this is being read, the name
    already means something else. -/
def readName (x : Expander) (read : Token → Eng Meaning) (global : Bool) : Eng Effect := do
  let t ← x.scanDefinedToken
  bind t (some Meaning.relax) global
  x.scanOptionalEquals
  return .set (t.binding (some (← read t)))

/-- The effect of filling a box register with what the given meaning denotes; `t` is its
    token.  A box that is yet to be made gives no value, but begins here. -/
def boxEffect (x : Expander) (name : String) (global : Bool) (t : Token) (μ? : Option Meaning) :
    Eng Effect :=
  match μ? with
  | some (.command (.makeBox kind)) =>
    return { rest := x.beginBox kind t (.toRegister name global) }
  | some (.command (.useBox keep)) => do
    let b ← takeBox (← x.scanRegisterNumber) keep
    return .set ⟨.box name, b⟩
  | _ => do
    push [t]
    failAt .cantUse t ["a box was supposed to be here"]

/-- Reads a register and the box that it is to hold. -/
def readBox (x : Expander) (global : Bool) : Eng Effect := do
  let name := Count.text (← x.scanRegisterNumber)
  x.scanOptionalEquals
  let t ← expect (← x.nextNonRelax?) .missingLeftBrace []
  x.boxEffect name global t (← if t.isCommand then meaning? t else pure none)

/-- Reads a direction.  A space behind it is skipped when it has been assigned. -/
def readDirection (x : Expander) (command : Token) : Eng Effect := do
  let d ← x.scanDirection command [.leftToRight, .rightToLeft]
  return { setting := some ⟨.direction, d⟩, rest := x.skipOptionalSpace }

/-- Reads what an assigning primitive needs; `t` is its token. -/
def readAssigner (x : Expander) (a : Assigner) (t : Token) (global : Bool) : Eng Effect :=
  match a with
  | .arithmetic op => x.readArithmetic op
  | .define _ expand => x.readMacro expand
  | .copyMeaning => x.readCopy
  | .copyNextMeaning => x.readCopyNext
  | .charDef => x.readName (fun _ => .charDef <$> x.scanCharCode) global
  | .registerDef bank => x.readName (fun _ => .register bank <$> x.scanRegisterNumber) global
  | .setBox => x.readBox global
  | .font => x.readName (x.scanFontDefinition t) global
  | .color => do return .set ⟨.color, ← x.scanColor t⟩
  | .textDirection => x.readDirection t

/-! ## Commands in two parts -/

theorem assignQuantity_eq (μ : Meaning) :
    x.assignQuantity μ =
      assigning fun global => (do (← x.readQuantity μ).perform global) := by
  unfold assignQuantity readQuantity
  simp only [bind_assoc, Cell.write_eq_effect]

theorem assignArithmetic_eq (op : ArithOp) (global : Bool) :
    x.assignArithmetic op global = (do (← x.readArithmetic op).perform global) := by
  unfold assignArithmetic readArithmetic
  simp only [bind_assoc, Cell.write_eq_effect]
  refine bind_congr fun t? => bind_congr fun t => bind_congr fun q => ?_
  generalize q.filter (·.2 ≠ .toks) = q'
  cases q' with
  | none => rfl
  | some q' => cases op <;> simp only [bind_assoc]

/-- The scope is that of the command, except that some definitions are always global. -/
theorem assignMacro_apply (alwaysGlobal expand global : Bool) (m : Machine) :
    x.assignMacro alwaysGlobal expand global m =
      (x.readMacro expand >>= fun e =>
        e.perform (global || (alwaysGlobal && m.env.count "globaldefs" ≥ 0))) m := by
  unfold assignMacro readMacro
  simp only [bind_assoc, pure_bind, bind_eq_perform]
  rw [bind_of_ok (get_apply m), bind_of_ok (get_apply m)]

theorem assignCopy_eq (global : Bool) :
    x.assignCopy global = (do (← x.readCopy).perform global) := by
  unfold assignCopy readCopy
  simp only [bind_assoc, pure_bind, bind_eq_perform]

theorem assignCopyNext_eq (global : Bool) :
    x.assignCopyNext global = (do (← x.readCopyNext).perform global) := by
  unfold assignCopyNext readCopyNext
  simp only [bind_assoc, pure_bind, bind_eq_perform]

theorem assignName_eq (read : Token → Eng Meaning) (global : Bool) :
    x.assignName read global = (do (← x.readName read global).perform global) := by
  unfold assignName readName
  simp only [bind_assoc, pure_bind]
  refine bind_congr fun t => bind_congr fun _ => bind_congr fun _ => bind_congr fun μ => ?_
  exact bind_eq_perform t (some μ) global

theorem assignBox_eq (global : Bool) :
    x.assignBox global = (do (← x.readBox global).perform global) := by
  unfold assignBox readBox
  simp only [bind_assoc]
  refine bind_congr fun n => bind_congr fun _ => bind_congr fun t? => bind_congr fun t => ?_
  -- Where the box comes from decides what is done with the register.
  have hfinish : ∀ μ? : Option Meaning, (match μ? with
      | some (.command (.makeBox kind)) => x.beginBox kind t (.toRegister (Count.text n) global)
      | some (.command (.useBox keep)) => do
        let b ← takeBox (← x.scanRegisterNumber) keep
        assign (.box (Count.text n) (some b)) global
      | _ => do
        push [t]
        failAt .cantUse t ["a box was supposed to be here"] : Eng Unit) =
      (do (← x.boxEffect (Count.text n) global t μ?).perform global) := by
    intro μ?
    unfold boxEffect
    split
    · rfl
    · simp only [bind_assoc, pure_bind, Effect.perform_set]
      rfl
    · rfl
  split
  · rw [bind_assoc]
    exact bind_congr hfinish
  · rw [bind_assoc]
    exact bind_congr hfinish

theorem assignDirection_eq (command : Token) (global : Bool) :
    x.assignDirection command global = (do (← x.readDirection command).perform global) := by
  unfold assignDirection readDirection
  simp only [bind_assoc, pure_bind]
  rfl

theorem performAssigner_apply (a : Assigner) (t : Token) (m : Machine) :
    x.performAssigner a t m.givenScope m =
      (x.readAssigner a t m.givenScope >>= fun e =>
        e.perform (m.assignsGlobally (.assigner a))) m := by
  cases a with
  | arithmetic op => exact congrFun (x.assignArithmetic_eq op _) m
  | define alwaysGlobal expand => exact x.assignMacro_apply alwaysGlobal expand _ m
  | copyMeaning => exact congrFun (x.assignCopy_eq _) m
  | copyNextMeaning => exact congrFun (x.assignCopyNext_eq _) m
  | charDef => exact congrFun (x.assignName_eq _ _) m
  | registerDef bank => exact congrFun (x.assignName_eq _ _) m
  | setBox => exact congrFun (x.assignBox_eq _) m
  | font => exact congrFun (x.assignName_eq _ _) m
  | color =>
    have hcolor : ∀ global, x.performAssigner .color t global =
        (do (← x.readAssigner .color t global).perform global) := by
      intro global
      unfold performAssigner readAssigner
      simp only [bind_assoc, pure_bind, Effect.perform_set]
      rfl
    exact congrFun (hcolor _) m
  | textDirection => exact congrFun (x.assignDirection_eq t _) m

/-! ## All assignments -/

/-- What a command with the given meaning executes, if it is one of those that assign; `t` is
    its token. -/
def assignment? (x : Expander) (μ : Meaning) (t : Token) : Option (Eng Unit) :=
  match μ with
  | .assigner a => some (assigning (x.performAssigner a t))
  | .quantity _ => some (x.assignQuantity μ)
  | .register _ _ => some (x.assignQuantity μ)
  | .font f => some (assigning (assign (.font f)))
  | _ => none

/-- Reads what such a command needs. -/
def read (x : Expander) (μ : Meaning) (t : Token) (global : Bool) : Eng Effect :=
  match μ with
  | .assigner a => x.readAssigner a t global
  | .font f => return .set ⟨.font, f⟩
  | _ => x.readQuantity μ

/-- An assignment reads and performs an effect, and then the token that was saved for this
    moment is inserted. -/
theorem assignment?_apply {μ : Meaning} {t : Token} {act : Eng Unit}
    (h : x.assignment? μ t = some act) (m : Machine) :
    act m = (do
      let e ← x.read μ t m.givenScope
      e.perform (m.assignsGlobally μ)
      insertAfterAssignment) m := by
  cases μ with
  | assigner a =>
    obtain rfl := Option.some.inj h
    rw [assigning_apply, bind_congr_of_apply_eq (x.performAssigner_apply a t m), bind_assoc]
    rfl
  | quantity q =>
    obtain rfl := Option.some.inj h
    rw [assignQuantity_eq, assigning_apply, bind_assoc]
    rfl
  | register bank i =>
    obtain rfl := Option.some.inj h
    rw [assignQuantity_eq, assigning_apply, bind_assoc]
    rfl
  | font f =>
    obtain rfl := Option.some.inj h
    show _ = (pure (Effect.set ⟨.font, f⟩) >>= fun e => e.perform _ >>= fun _ => _ : Eng Unit) m
    rw [assigning_apply, pure_bind, Effect.perform_set]
    rfl
  | _ => contradiction

end Expander

end TexEngine
