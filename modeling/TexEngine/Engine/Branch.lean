/-
  TexEngine.Engine.Branch

  Conditionals.  The test of a conditional is evaluated while its record on the
  conditional stack is pending; then a branch is chosen, and the branches that
  are not wanted are skipped without expanding anything.
-/
import TexEngine.Engine.Scan.Tokens

namespace TexEngine

open Eng

/-! ## The conditional stack -/

/-- Adds a conditional, which becomes the innermost one, and gives its index. -/
def Eng.pushConditional (c : Conditional) : Eng Nat :=
  modifyGet fun m =>
    (m.env.conditionals.size,
     { m with env := { m.env with conditionals := m.env.conditionals.push c } })

/-- Changes the conditional with the given index. -/
def Eng.modifyConditional (i : Nat) (f : Conditional → Conditional) : Eng Unit :=
  modifyEnv fun env => { env with conditionals := env.conditionals.modify i f }

/-- Removes the innermost conditional. -/
def Eng.popConditional : Eng Unit :=
  modifyEnv fun env => { env with conditionals := env.conditionals.pop }

/-- What ends a branch. -/
inductive BranchEnd where
  | orElse
  | orCase
  | endIf
  deriving DecidableEq, Repr, Inhabited

namespace Expander

/-! ## Skipping -/

/-- Skips tokens up to the end of a branch of the conditional with the given
    index.  Conditionals inside of the branch are skipped as a whole; an \or ends
    the branch only if `cases` is set. -/
def skipBranch (x : Expander) (i : Nat) (cases : Bool) : Eng BranchEnd :=
  iterate (fun depth => do
    match ← rawToken with
    | none =>
      let c := ((← env).conditionals[i]?).getD {}
      failHere .runawayConditional ["\\" ++ c.primitive, "opened at", c.locator.text]
    | some t =>
      match ← if t.isCommand then meaning? t else pure none with
      | some (.conditional p) =>
        match p, depth with
        -- The \else and the \or of a conditional inside of the branch do not count.
        | .test _, depth => return .again (depth + 1)
        | .ifCase, depth => return .again (depth + 1)
        | .endIf, 0 => return .done .endIf
        | .endIf, depth + 1 => return .again depth
        | .orElse, 0 => return .done .orElse
        | .orCase, 0 => return if cases then .done .orCase else .again 0
        | _, depth => return .again depth
      | _ => return .again depth) x.fuel 0

/-- Skips the rest of the innermost conditional and closes it. -/
def skipToFi (x : Expander) : Eng Unit := do
  let i := (← env).conditionals.size - 1
  iterate (fun _ => do
    match ← x.skipBranch i false with
    | .endIf =>
      popConditional
      return .done ()
    | _ => return .again ()) x.fuel ()

/-! ## Tests -/

/-- Reads one of the relations <, = and >. -/
def scanRelation (x : Expander) : Eng Ordering := do
  let t ← expect (← x.nextNonSpace?) .missingRelation []
  if t.isOther '<' then return .lt
  else if t.isOther '=' then return .eq
  else if t.isOther '>' then return .gt
  else
    push [t]
    failAt .missingRelation t []

/-- Two numbers stand in a relation. -/
def related (a : Int64) (rel : Ordering) (b : Int64) : Bool :=
  match rel with
  | .lt => a < b
  | .gt => a > b
  | .eq => a == b

/-- Two tokens count as the same for \ifx. -/
def sameTokens (a b : Token) : Eng Bool := do
  match a.isCommand, b.isCommand with
  | true, true =>
    match ← meaning? a, ← meaning? b with
    | none, none => return true
    | some m, some n => return m.same n
    | _, _ => return false
  | true, false => return (← meaning? a) == some (.charToken b)
  | false, true => return (← meaning? b) == some (.charToken a)
  | false, false => return a.code == b.code && a.cat == b.cat

/-- The character and the category of a token for \if and \ifcat; a token that is
    no character has character 256 and category 16. -/
def charCat (t : Token) : Eng (CharCode × Catcode) := do
  let m ← if t.isCommand && !(← isFrozen) then meaning? t else pure none
  match m with
  | some (.charToken c) => return (c.code, c.cat)
  | _ =>
    if t.isChar && !t.isActive then return (t.code, t.cat)
    else return (256, .unassigned 16)

/-- Reads a box register. -/
def scanBox (x : Expander) : Eng (Option Box) := do
  let n ← x.scanRegisterNumber
  return (← env).box (Count.text n)

/-- Evaluates a test. -/
def test (x : Expander) : Test → Eng Bool
  | .always => return true
  | .never => return false
  | .number => do
    let a ← x.scanInteger
    let rel ← x.scanRelation
    return related a rel (← x.scanInteger)
  | .dimension => do
    let a ← x.scanDimen
    let rel ← x.scanRelation
    return related a rel (← x.scanDimen)
  | .odd => return (← x.scanInteger) % 2 != 0
  | .sameMeaning => do
    let a ← expect (← rawToken) .runawayConditional []
    let b ← expect (← rawToken) .runawayConditional []
    sameTokens a b
  | .sameChar => do
    let a ← charCat (← expect (← x.next?) .runawayConditional [])
    let b ← charCat (← expect (← x.next?) .runawayConditional [])
    return a.1 == b.1
  | .sameCategory => do
    let a ← charCat (← expect (← x.next?) .runawayConditional [])
    let b ← charCat (← expect (← x.next?) .runawayConditional [])
    return a.2 == b.2
  | .voidBox => return (← x.scanBox).isNone
  | .horizontalBox => return (← x.scanBox).any (·.kind == .horizontal)
  | .verticalBox => return (← x.scanBox).any (·.kind == .vertical)
  | .defined => do
    let t ← expect (← rawToken) .runawayConditional []
    if t.isCommand then return (← meaning? t).isSome else return true
  | .definedName => do
    let name ← x.scanCsname
    return ((← env).code? name).isSome

/-! ## Conditionals -/

/-- Evaluates a test while the conditional with the given index is pending. -/
def whilePending {α : Type} (i : Nat) (act : Eng α) : Eng α := do
  let settle : Eng Unit := modifyConditional i fun c => { c with pending := false }
  let a ← tryCatch act fun f => do
    settle
    throw f
  settle
  return a

/-- The branch behind \else is chosen. -/
def enterElse (i : Nat) : Eng Unit :=
  modifyConditional i fun c => { c with value := true, inElse := true }

/-- The current branch is chosen. -/
def enterBranch (i : Nat) : Eng Unit :=
  modifyConditional i fun c => { c with value := true }

/-- Skips a branch that is not wanted, and enters what follows. -/
def skipFirst (x : Expander) (i : Nat) : Eng Unit := do
  match ← x.skipBranch i false with
  | .endIf => popConditional
  | _ => enterElse i

/-- Skips branches of \ifcase until the one with number `n` is reached. -/
def skipCases (x : Expander) (i : Nat) (n : Int64) : Eng Unit :=
  iterate (fun n => do
    if n ≤ 0 then
      enterBranch i
      return .done ()
    match ← x.skipBranch i true with
    | .endIf =>
      popConditional
      return .done ()
    | .orElse =>
      enterElse i
      return .done ()
    | .orCase => return .again (n - 1)) x.fuel n

/-- Opens a conditional, and gives its index. -/
def openConditional (name : String) (isCase : Bool) : Eng Nat := do
  let i ← pushConditional
    { locator := (← get).input.locator, primitive := name, pending := true, isCase }
  if (← env).count "tracingcommands" > 1 then
    trace .info .engine fun _ =>
      "\x7b\\" ++ name ++ ": (level " ++ toString (i + 1) ++ ")\x7d"
  return i

/-- Evaluates a conditional up to the beginning of the branch that is chosen. -/
def expandIf (x : Expander) (t : Test) : Eng Unit := do
  let i ← openConditional t.name false
  if ← whilePending i (x.test t) then enterBranch i else x.skipFirst i

/-- Evaluates \ifcase up to the beginning of the branch that is chosen. -/
def expandCase (x : Expander) : Eng Unit := do
  let i ← openConditional CondPrimitive.ifCase.name true
  let n ← whilePending i x.scanInteger
  if n < 0 then x.skipFirst i else x.skipCases i n

/-- Ends the current branch with \else, \or or \fi.  While a test is being
    evaluated, the test is ended first, by a token that means \relax. -/
def endBranch (x : Expander) (p : CondPrimitive) (t : Token) : Eng Unit := do
  let top := (← env).conditionals.back?
  let extra : Option ErrorKind :=
    match p, top with
    | .endIf, none => some .extraFi
    | .endIf, some _ => none
    | .orElse, none => some .extraElse
    | .orElse, some c => if c.inElse then some .extraElse else none
    -- What remains is \or, which belongs to an \ifcase only.
    | _, none => some .extraOr
    | _, some c => if !c.isCase || c.inElse then some .extraOr else none
  match extra with
  | some kind => failAt kind t []
  | none =>
    if top.any (·.pending) then push [.frozenRelax, t]
    else if p = .endIf then popConditional
    else x.skipToFi

/-- Expands a primitive of conditionals. -/
def expandConditional (x : Expander) (p : CondPrimitive) (t : Token) : Eng Unit :=
  match p with
  | .test c => x.expandIf c
  | .ifCase => x.expandCase
  | p => x.endBranch p t

end Expander

end TexEngine
