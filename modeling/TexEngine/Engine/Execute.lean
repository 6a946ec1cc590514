/-
  TexEngine.Engine.Execute

  Execution of tokens that cannot be expanded: characters are typeset or open and
  close groups, commands act, and modifiers are collected until a command follows
  that accepts them.
-/
import TexEngine.Engine.Assign
import TexEngine.Engine.Dump

namespace TexEngine.Expander

open Eng

/-! ## Typesetting -/

/-- Typesets a character. -/
def addChar (c : CharCode) : Eng Unit := do
  typeset (.char c (← env).attributes)

/-- Typesets the space of the current font. -/
def addFontSpace : Eng Unit := do
  let env ← env
  typeset (.space (env.fonts.spaceGlue env.font) env.attributes)

/-- Typesets a space: \spaceskip if it is not zero, or the space of the current
    font. -/
def addSpace : Eng Unit := do
  let env ← env
  let skip := env.glue "spaceskip"
  if skip = {} then addFontSpace else typeset (.space skip env.attributes)

/-! ## Groups -/

/-- Closes a group with a brace. -/
def closeBrace (t : Token) : Eng Unit := do
  match (← env).groups with
  | [] => failAt .tooManyRightBraces t []
  | g :: _ =>
    if g.type = .semiSimple then
      failAt .groupMismatch t ["\\begingroup opened at", g.locator.text]
    else closeGroup

/-- Closes a group with \endgroup. -/
def closeSemiSimple (t : Token) : Eng Unit := do
  match (← env).groups with
  | [] => failAt .extraEndgroup t []
  | g :: _ =>
    if g.type = .semiSimple then closeGroup
    else failAt .groupMismatch t [g.type.text ++ " group opened at", g.locator.text]

/-- Executes a character token. -/
def executeChar (t : Token) : Eng Unit := do
  match t.cat with
  | .beginGroup => openGroup .simple t none
  | .endGroup => closeBrace t
  | .space => addSpace
  | .parameter => failAt .cantUse t []
  | .alignmentTab => failAt .cantUse t []
  | _ => addChar t.code

/-! ## Commands -/

/-- Adds a box register to the material. -/
def addBox (x : Expander) (keep : Bool) : Eng Unit := do
  let n ← x.scanRegisterNumber
  match ← takeBox n keep with
  | some b =>
    logBoxes [.used b]
    typeset (Box.node? (some b))
  | none => pure ()

/-- Maps the characters of a balanced text through a table and reads them again.
    Categories are kept, and characters with code 0 in the table stay. -/
def changeCase (x : Expander) (table : CodeTable) : Eng Unit := do
  x.scanLeftBrace
  let ts ← x.scanBalanced
  let env ← env
  push (ts.map fun t =>
    match t with
    | .char c k =>
      let v := env.charCode table c
      if v = 0 then t else .char (CharCode.ofWord v) k
    | t => t)

/-- Reads a text for a message. -/
def messageText (x : Expander) : Eng String := do
  let ts ← x.scanGeneralText
  return TokenList.format (← env).escapeChar ts

/-- Shows the meaning of a token. -/
def showMeaning : Eng Unit := do
  let t ← expect (← token?) .missingControlSequence []
  let description ← describe t
  if t.isCommand then
    emit (.message ("> " ++ (← showToken t) ++ "=" ++ description ++ "."))
  else emit (.message ("> " ++ description ++ "."))

/-- Stores the current state as a format, and ends the job. -/
def storeFormat : Eng Unit := do
  let img ← dump
  match (← get).dumpRefusal with
  | some message => throw (.failure message)
  | none =>
    modify fun m => { m with image := some img }
    emit (.dumped img.job)
    modify fun m => { m with stopped := true }

/-- Executes a command. -/
def executeCommand (x : Expander) (c : Command) (t : Token) : Eng Unit := do
  match c with
  | .endcsname => failAt .cantUse t ["extra \\endcsname"]
  | .begingroup => openGroup .semiSimple t none
  | .endgroup => closeSemiSimple t
  | .aftergroup =>
    let next ← expect (← token?) .missingControlSequence []
    modifyEnv (·.afterGroup next)
  | .afterassignment =>
    let next ← expect (← token?) .missingControlSequence []
    modifyEnv fun env => { env with afterAssignment := some next }
  | .makeBox kind => x.beginBox kind t .toPage
  | .useBox keep => x.addBox keep
  | .controlSpace => addFontSpace
  | .char => addChar (← x.scanCharCode)
  | .skip vertical => typeset (.glue (← x.scanGlue) vertical)
  | .kern => typeset (.kern (← x.scanDimen))
  | .penalty => typeset (.penalty (← x.scanInteger))
  | .par => typeset .par
  | .relax => pure ()
  | .ignorespaces =>
    match ← x.nextNonSpace? with
    | some t => push [t]
    | none => pure ()
  | .changeCase true => x.changeCase .uccode
  | .changeCase false => x.changeCase .lccode
  | .endJob => modify fun m => { m with stopped := true }
  | .dump => storeFormat
  | .message => emit (.message (← x.messageText))
  | .showMeaning => showMeaning
  | .showValue =>
    let ts ← x.theTokens
    emit (.message ("> " ++ TokenList.format (← env).escapeChar ts ++ "."))
  | .write =>
    let n ← x.scanInteger
    emit (.write n (← x.messageText))
  | .errmessage => fail .userError [← x.messageText]

/-! ## Tokens -/

/-- Reports a token without a meaning. -/
def reportUndefined (t : Token) : Eng Unit := do
  let locator := (← get).input.locator
  let shown ← showToken t
  trace .error .engine fun _ => locator.text ++ ": undefined control sequence " ++ shown
  emit (.undefined t locator)

/-- Executes one token.  Behind a modifier, the token that it modifies is read;
    this token is the result. -/
def dispatch (x : Expander) (t : Token) : Eng (Option Token) := do
  let modifiers := (← get).modifiers
  if !t.isCommand then
    if modifiers.any then failAt .cantUsePrefix t []
    executeChar t
    return none
  match ← meaning? t with
  | none =>
    reportUndefined t
    return none
  | some m =>
    if modifiers.any && !m.accepts modifiers then failAt .cantUsePrefix t []
    if (← env).traces "tracingcommands" then
      let shown ← showToken t
      trace .info .engine fun _ => "\x7b" ++ shown ++ "\x7d"
    match m with
    | .modifier f =>
      modify fun s => { s with modifiers := s.modifiers.add f }
      return some (← expect (← x.nextNonRelax?) .cantUsePrefix [])
    | .command c => x.executeCommand c t
    | .assigner a => assigning (x.performAssigner a t)
    | .quantity _ => x.assignQuantity m
    | .register _ _ => x.assignQuantity m
    | .charDef c => addChar c
    | .font f => assigning (assign (.font f))
    | .charToken c => executeChar c
    | _ => failAt .cantUse t []
    return none

/-- A round of the loop that executes a token with all its modifiers. -/
def round (x : Expander) (t : Token) : Eng (Step Token Unit) := do
  match ← blame t (x.dispatch t) with
  | some next => return .again next
  | none => return .done ()

/-- Executes a token with all its modifiers.  Whatever happens, no modifier is
    left over for a later command. -/
def execute (x : Expander) (t : Token) : Eng Unit := fun m =>
  match iterate x.round x.fuel t m with
  | .ok () m => .ok () { m with modifiers := {} }
  | .error f m => .error f { m with modifiers := {} }

end TexEngine.Expander
