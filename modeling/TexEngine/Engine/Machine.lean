/-
  TexEngine.Engine.Machine

  The engine's state and the operations everything else is made of: reporting
  events, failing, reading raw tokens, and putting tokens back.

  An operation is a state transformer that can fail.  The state reached before
  a failure is kept, because a job can be continued after an error.  Reading at
  the end of the input is not a failure: it gives no token.
-/
import TexEngine.Event
import TexEngine.Format.Image
import TexEngine.Input.Source

namespace TexEngine

/-- Bounds on the resources used by expansion: the nesting depth of expansions,
    the number of pushed-back tokens, and the number of open streams. -/
structure Limits where
  expansionDepth : Nat := 5000
  pushback : Nat := 4194304
  inputDepth : Nat := 100
  deriving DecidableEq, Repr, Inhabited

/-- What was noticed on the way: the largest line number or nesting level that was
    read as a number, and whether an operation on words wrapped around.  Nothing
    depends on these notes. -/
structure Observations where
  highest : Nat := 0
  wrapped : Bool := false
  deriving DecidableEq, Repr, Inhabited

/-- The state of an engine.  `depth` is the number of expansions that are going on
    inside of one another.  `marked` is the token that must not be expanded when it
    is read next, and `frozen` tells whether the token read last had this mark.
    `dumpRefusal` makes every attempt to store a format fail with its text; `image`
    is the last format that was accepted.  `boxLog` says what has happened to boxes, with
    the latest event first; nothing depends on it. -/
structure Machine where
  env : Env Meaning
  input : Source := {}
  page : Recorder := {}
  files : FileTree := {}
  jobName : String := "texput"
  limits : Limits := {}
  depth : Nat := 0
  modifiers : Modifiers := {}
  stopped : Bool := false
  marked : Option Token := none
  frozen : Bool := false
  traceLevel : Option TraceLevel := none
  dumpRefusal : Option String := none
  image : Option Image := none
  log : Array Event := #[]
  observed : Observations := {}
  boxLog : List BoxEvent := []

/-! ## What happens to boxes -/

/-- The box that the end of a group gives, and the typesetter without it.  A group that
    is no box group gives an empty box, which is of no use. -/
def Group.finishBox? {μ : Type} (g : Group μ) (r : Recorder) : Option (Box × Recorder) :=
  if g.type.isBox then r.closeBox? else some ({}, r)

namespace BoxEvent

/-- The box goes to the typesetter. -/
def deliver (depth : Nat) (b : Box) : List BoxEvent :=
  [.used b, .added depth (Box.node? (some b))]

/-- What the end of a group does with its box. -/
def finish (depth : Nat) (b : Box) : Option Delivery → List BoxEvent
  | none => []
  | some .toPage => .built b :: deliver depth b
  | some (.toRegister _ _) => [.built b]

/-- What fetching the contents of a box register does. -/
def fetch (env : Env Meaning) (name : String) (keep : Bool) : List BoxEvent :=
  match env.box name with
  | none => []
  | some b =>
    if keep then [.copied b] else if env.remembers (.box name) then [.remembered b] else []

end BoxEvent

/-- What the end of the innermost group does with its box. -/
def Machine.closing (m : Machine) : List BoxEvent :=
  match m.env.groups with
  | [] => []
  | g :: _ =>
    match g.finishBox? m.page with
    | some (b, r) => BoxEvent.finish r.boxes.length b g.deliver
    | none => []

/-- The machine with further entries in its log of boxes. -/
def Machine.logBoxes (m : Machine) (events : List BoxEvent) : Machine :=
  { m with boxLog := events.reverse ++ m.boxLog }

/-! ## Operations -/

/-- Operations of the engine. -/
abbrev Eng := EStateM Fault Machine

namespace Eng

/-! ## Events -/

/-- Reports an event. -/
def emit (e : Event) : Eng Unit :=
  modify fun m => { m with log := m.log.push e }

/-- Reports a diagnostic, if its level is wanted. -/
def trace (level : TraceLevel) (tracer : Tracer) (text : Unit → String) : Eng Unit := do
  match (← get).traceLevel with
  | some wanted => if level.rank ≤ wanted.rank then emit (.trace level tracer (text ()))
  | none => pure ()

/-- Reports that a stream was opened. -/
def opened (name : String) (isFile : Bool) : Eng Unit := do
  trace .debug .input fun _ => "open " ++ name
  emit (.opened name isFile)

/-- Reports that streams were closed. -/
def closed : List StreamId → Eng Unit
  | [] => pure ()
  | s :: ss => do
    trace .debug .input fun _ => "close " ++ s.name
    emit (.closed s.name s.isFile)
    closed ss

/-! ## Observations -/

/-- Notes whether operations on words were exact. -/
def observe (fits : Bool) : Eng Unit :=
  if fits then pure () else modify fun m => { m with observed.wrapped := true }

/-- Notes a line number or a nesting level. -/
def observeLevel (n : Nat) : Eng Unit :=
  modify fun m => { m with observed.highest := max m.observed.highest n }

/-! ## Failures -/

/-- Fails with an error of the language. -/
def fail {α : Type} (kind : ErrorKind) (details : List String) : Eng α :=
  throw (.tex { kind, details })

/-- Fails with an error that is due to a token. -/
def failAt {α : Type} (kind : ErrorKind) (t : Token) (details : List String) : Eng α :=
  throw (.tex { kind, details, token := some t })

/-- Fails with an error that carries the input position of this moment. -/
def failHere {α : Type} (kind : ErrorKind) (details : List String) : Eng α := do
  throw ((← get).input.annotate (.tex { kind, details }))

/-- The token, or a failure if the input ended. -/
def expect (t? : Option Token) (kind : ErrorKind) (details : List String) : Eng Token :=
  match t? with
  | some t => pure t
  | none => failHere kind details

/-- Attributes errors of an operation to a token and to the input position,
    unless they have these already. -/
def blame {α : Type} (t : Token) (act : Eng α) : Eng α := fun m =>
  match act m with
  | .ok a m => .ok a m
  | .error (.tex e) m => .error (m.input.annotate (.tex (e.blame t))) m
  | .error f m => .error f m

/-- Counts an expansion while it goes on, however it ends. -/
def nested {α : Type} (act : Eng α) : Eng α := fun m =>
  match act { m with depth := m.depth + 1 } with
  | .ok a m => .ok a { m with depth := m.depth - 1 }
  | .error f m => .error f { m with depth := m.depth - 1 }

/-- The result of an arithmetic operation. -/
def arith {α : Type} : Except ArithFault α → Eng α
  | .ok a => pure a
  | .error f => throw (.tex (TexError.ofArith f))

/-! ## Loops -/

/-- What a step of a loop gives: a new state, or the result. -/
inductive Step (σ α : Type) where
  | again (s : σ)
  | done (a : α)

/-- Repeats `step` until it gives a result, at most `fuel` times. -/
def iterate {σ α : Type} (step : σ → Eng (Step σ α)) : Nat → σ → Eng α
  | 0, _ => throw .outOfFuel
  | n + 1, s => do
    match ← step s with
    | .again s => iterate step n s
    | .done a => pure a

/-! ## Reading -/

/-- The environment. -/
def env : Eng (Env Meaning) := do
  return (← get).env

/-- Changes the environment. -/
@[inline]
def modifyEnv (f : Env Meaning → Env Meaning) : Eng Unit :=
  modify fun m => { m with env := f m.env }

/-- Performs an assignment. -/
def assign (a : Assignment Meaning) (global : Bool) : Eng Unit :=
  modifyEnv (·.assign a global)

/-- The next token as it stands in the input. -/
def rawToken : Eng (Option Token) := do
  let m ← get
  let r := m.input.next m.env.lexicon
  set { m with input := r.source }
  closed r.closed
  match r.result with
  | .ok t? => return t?
  | .error f => throw f

/-- The next token that is not a space, as it stands in the input. -/
def rawNonSpace (fuel : Nat) : Eng (Option Token) :=
  iterate (fun _ => do
    match ← rawToken with
    | none => return .done none
    | some t => return if t.hasCat .space then .again () else .done (some t)) fuel ()

/-- The next token, with `frozen` telling whether it is marked as not to be
    expanded.  The mark applies to one token only. -/
def token? : Eng (Option Token) := fun m =>
  match rawToken m with
  | .ok t? m =>
    .ok t? { m with marked := none, frozen := m.marked.isSome && m.marked == t? }
  | .error f m => .error f { m with marked := none, frozen := false }

/-- The token read last was marked as not to be expanded. -/
def isFrozen : Eng Bool := do
  return (← get).frozen

/-- Puts tokens in front of the input. -/
def push (ts : TokenList) : Eng Unit :=
  modify fun m => { m with input := m.input.push ts }

/-- Opens a text as input. -/
def pushText (text name : String) : Eng Unit := do
  modify fun m => { m with input := m.input.pushText text name }
  opened name false

/-- Opens a file as input. -/
def includeFile (fileName : String) : Eng Unit := do
  let m ← get
  emit (.sought (Reader.inputPath m.input.baseDir fileName))
  match m.input.includeFile m.files fileName with
  | .ok (src, r) =>
    modify fun m => { m with input := src }
    opened r.name r.isFile
  | .error f => throw f

/-- Fails if no further stream may be opened. -/
def checkInputDepth : Eng Unit := do
  let m ← get
  if m.input.depth ≥ m.limits.inputDepth then fail .recursionTooDeep ["input nesting"]

/-- The meaning of a token; the frozen \relax has always the same. -/
def meaning? (t : Token) : Eng (Option Meaning) := do
  if t = .frozenRelax then return some Meaning.relax
  return (← env).meaning? t

/-- The text of a token with the current escape character. -/
def showToken (t : Token) : Eng String := do
  return t.format (← env).escapeChar

/-- Takes down what happens to boxes. -/
def logBoxes (events : List BoxEvent) : Eng Unit :=
  modify (·.logBoxes events)

/-- Adds an item to the page or to the innermost open box. -/
def typeset (n : Node) : Eng Unit :=
  modify fun m => { m with page := m.page.add n }.logBoxes [.added m.page.boxes.length n]

end Eng

end TexEngine
