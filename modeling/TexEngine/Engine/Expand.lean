/-
  TexEngine.Engine.Expand

  Expansion.  One expansion step replaces a token by others, or opens a further
  input.  Expansions nest when a step has to read expanded input; the expanders
  of all nesting depths are defined by recursion on the number of further levels
  that the limits allow.
-/
import TexEngine.Engine.Arguments
import TexEngine.Engine.Branch
import TexEngine.Engine.Describe

namespace TexEngine.Expander

open Eng

/-! ## Expandable primitives -/

/-- Expands the token after the next one. -/
def expandAfter (x : Expander) : Eng Unit := do
  let first ← expect (← token?) .missingControlSequence []
  let second ← expect (← token?) .missingControlSequence []
  let m ← if second.isCommand && !(← isFrozen) then meaning? second else pure none
  match m.filter (·.isExpandable) with
  | some m =>
    x.expand m second
    push [first]
  | none => push [first, second]

/-- Marks the next token as not to be expanded, if it could be. -/
def markNext : Eng Unit := do
  let t ← expect (← token?) .missingControlSequence []
  if t.isCommand then
    if (← meaning? t).any (·.isExpandable) then modify fun m => { m with marked := some t }
  push [t]

/-- Makes a control sequence from characters.  If it is undefined, it becomes
    \relax in the current group. -/
def expandCsname (x : Expander) : Eng Unit := do
  let name ← x.scanCsname
  if ((← env).code? name).isNone then assign (.code name (some Meaning.relax)) false
  push [.cs name]

/-- Gives the name of a font. -/
def expandFontName (x : Expander) : Eng Unit := do
  let t ← expect (← x.nextNonSpace?) .missingControlSequence []
  match ← meaning? t with
  | some (.font f) => push (TokenList.ofText f.fullName)
  | some (.assigner .font) => push (TokenList.ofText (← env).font.fullName)
  | _ =>
    push [t]
    failAt .missingControlSequence t ["font identifier expected"]

/-- Opens a file. -/
def expandInput (x : Expander) (t : Token) : Eng Unit := do
  let name ← x.scanFileName
  checkInputDepth
  tryCatch (includeFile name) fun _ => failAt .fileNotFound t [name]

/-- The text that \scantokens reads again: control sequences are followed by a
    space. -/
def rescannedText (esc : Option CharCode) (ts : TokenList) : String :=
  String.join (ts.map fun t => if t.isCs then t.format esc ++ " " else t.format esc)

/-- Reads a balanced text again. -/
def expandScanTokens (x : Expander) : Eng Unit := do
  x.scanLeftBrace
  let ts ← x.scanBalanced
  checkInputDepth
  pushText (rescannedText (← env).escapeChar ts) "scantokens"

/-- Expands a primitive. -/
def expandPrimitive (x : Expander) (p : Expandable) (t : Token) : Eng Unit := do
  match p with
  | .expandafter => x.expandAfter
  | .noexpand => markNext
  | .csname => x.expandCsname
  | .string => push (← stringTokens (← expect (← token?) .missingControlSequence []))
  | .number => push (TokenList.ofText (Count.text (← x.scanInteger)))
  | .romannumeral => push (TokenList.ofText (Count.roman (← x.scanInteger)))
  | .the => push (← x.theTokens)
  | .meaning =>
    push (TokenList.ofText (← describe (← expect (← token?) .missingControlSequence [])))
  | .jobname => push (TokenList.ofText (← get).jobName)
  | .fontname => x.expandFontName
  | .input => x.expandInput t
  | .endinput => modify fun m => { m with input := m.input.endInput }
  | .scantokens => x.expandScanTokens

/-! ## Expansion -/

/-- What the expansion of a token with the given meaning does; deeper expansions
    are left to `x`. -/
def perform (x : Expander) (m : Meaning) (t : Token) : Eng Unit :=
  match m with
  | .expandable p => x.expandPrimitive p t
  | .conditional p => x.expandConditional p t
  | .defined d => d.call x.fuel t
  | _ => pure ()

/-- One expansion.  Afterwards, not too many tokens may wait in the input. -/
def step (x : Expander) (m : Meaning) (t : Token) : Eng Unit :=
  blame t do
    x.perform m t
    let s ← get
    if s.input.pending > s.limits.pushback then fail .recursionTooDeep ["input buffer"]

/-- Fails because expansions are nested too deeply. -/
def tooDeep (t : Token) : Eng Unit :=
  blame t (fail .recursionTooDeep ["expansion depth"])

/-- The expander below which `depth` further levels of expansions are allowed.  An
    expansion that is too deep is counted as well while it fails. -/
def ofDepth (fuel : Nat) : Nat → Expander
  | 0 => { fuel, expand := fun _ t => nested (tooDeep t) }
  | depth + 1 => { fuel, expand := fun m t => nested (step (ofDepth fuel depth) m t) }

end TexEngine.Expander

namespace TexEngine.Eng

/-- Runs an operation that needs an expander, at the outermost level. -/
def withExpander {α : Type} (fuel : Nat) (act : Expander → Eng α) : Eng α := do
  act (Expander.ofDepth fuel (← get).limits.expansionDepth)

end TexEngine.Eng
