/-
  TexEngine.Engine.Assign

  Assignments: definitions of macros, new meanings, arithmetic, boxes, fonts,
  colors and directions.
-/
import TexEngine.Engine.Definition
import TexEngine.Engine.Expand

namespace TexEngine.Expander

open Eng

/-! ## The frame of all assignments -/

/-- Performs an assignment, which is told whether it is global, and then reads
    the token saved for this moment.  A nonzero \globaldefs overrules \global. -/
def assigning (act : Bool → Eng Unit) : Eng Unit := do
  let m ← get
  let defs := m.env.count "globaldefs"
  act (if defs ≠ 0 then defs > 0 else m.modifiers.isGlobal)
  match (← env).afterAssignment with
  | some t =>
    modifyEnv fun env => { env with afterAssignment := none }
    push [t]
  | none => pure ()

/-- Gives a control sequence or active character a meaning. -/
def bind (t : Token) (m : Option Meaning) (global : Bool) : Eng Unit :=
  modifyEnv (·.setMeaning t m global)

/-- The cell of a quantity that is to be assigned to. -/
def resolveMutable (x : Expander) (m : Meaning) : Eng Cell := do
  let cell ← x.resolve m
  if cell.isMutable then return cell else fail .immutable [m.name]

/-- Assigns to a quantity. -/
def assignQuantity (x : Expander) (m : Meaning) : Eng Unit :=
  assigning fun global => do
    let cell ← x.resolveMutable m
    x.scanOptionalEquals
    let v ← x.scanValue cell.kind
    cell.write v global

/-- Assigns the result of an arithmetic operation. -/
def assignArithmetic (x : Expander) (op : ArithOp) (global : Bool) : Eng Unit := do
  let t ← expect (← x.nextNonSpace?) .missingControlSequence []
  match (← quantity? t).filter (·.2 ≠ .toks) with
  | none => failAt .cantUse t ["after \\" ++ op.name]
  | some (m, _) =>
    let cell ← x.resolveMutable m
    let _ ← x.scanKeyword "by"
    let v ← cell.read
    let v ←
      match op with
      | .advance =>
        let w ← x.scanValue cell.kind
        observe (v.addFits w)
        arith (v.add w)
      | .multiply =>
        let n ← x.scanInteger
        observe (v.multiplyFits n)
        arith (v.multiply n)
      | .divide =>
        let n ← x.scanInteger
        observe (v.divideFits n)
        arith (v.divide n)
    cell.write v global

/-! ## Meanings -/

/-- Defines a macro. -/
def assignMacro (x : Expander) (alwaysGlobal expand global : Bool) : Eng Unit := do
  let m ← get
  let global := global || (alwaysGlobal && m.env.count "globaldefs" ≥ 0)
  let t ← x.scanDefinedToken
  let d ← x.scanDefinition t.definedName (expand || m.modifiers.isExpanded)
  let d := { d with isLong := m.modifiers.isLong, isOuter := m.modifiers.isOuter,
                    isProtected := m.modifiers.isProtected }
  bind t (some (.defined d)) global

/-- The meaning of a token, with characters meaning themselves. -/
def tokenMeaning (t : Token) : Eng (Option Meaning) :=
  if t.isCommand then meaning? t else return some (.charToken t)

/-- Reads the token whose meaning \let copies: an equals sign and one space in
    front of it are skipped. -/
def scanLetToken (x : Expander) : Eng Token := do
  let t ← iterate (fun _ => do
    let t ← expect (← rawToken) .missingControlSequence []
    return if t.hasCat .space then .again () else .done t) x.fuel ()
  if t.isOther '=' then
    let t ← expect (← rawToken) .missingControlSequence []
    if t.hasCat .space then expect (← rawToken) .missingControlSequence [] else return t
  else return t

/-- Copies the meaning of a token. -/
def assignCopy (x : Expander) (global : Bool) : Eng Unit := do
  let t ← x.scanDefinedToken
  let source ← x.scanLetToken
  bind t (← tokenMeaning source) global

/-- Copies the meaning of the token after the next one. -/
def assignCopyNext (x : Expander) (global : Bool) : Eng Unit := do
  let t ← x.scanDefinedToken
  let first ← expect (← rawToken) .missingControlSequence []
  let second ← expect (← rawToken) .missingControlSequence []
  push [first, second]
  bind t (← tokenMeaning second) global

/-- Defines a name for something that is read behind an equals sign.  While it is
    being read, the name means \relax. -/
def assignName (x : Expander) (read : Token → Eng Meaning) (global : Bool) : Eng Unit := do
  let t ← x.scanDefinedToken
  bind t (some Meaning.relax) global
  x.scanOptionalEquals
  bind t (some (← read t)) global

/-! ## Fonts and attributes -/

/-- Reads the size of a font: a length behind "at", or a magnification behind
    "scaled". -/
def scanFontSize (x : Expander) : Eng Dimen := do
  if ← x.scanKeyword "at" then
    let size ← x.scanDimen
    if size ≤ 0 ∨ size ≥ Dimen.points 2048 then
      fail .dimenTooLarge ["improper `at' size", Dimen.text size]
    else return size
  else if ← x.scanKeyword "scaled" then
    let n ← x.scanInteger
    if n ≤ 0 ∨ n > 32768 then fail .illegalMag [Count.text n]
    else
      observe (Dimen.xnOverDFits Font.defaultSize n 1000)
      return (Dimen.xnOverD Font.defaultSize n 1000).1
  else return Font.defaultSize

/-- Reads the name and the size of a font, and loads it for the control sequence
    `t`; `command` is the token of the command that does this. -/
def scanFontDefinition (x : Expander) (command t : Token) : Eng Meaning := do
  let name ← x.scanFileName
  if name.isEmpty then failAt .fileNotFound command ["missing font name"]
  let size ← x.scanFontSize
  observe (FontParams.ofSizeFits (FontBook.loadSize size))
  let (f, fonts) := (← env).fonts.load t.definedName name size
  modifyEnv fun env => { env with fonts }
  return .font f

/-- Reads a decimal number. -/
def scanColorComponent (x : Expander) : Eng Binary64 := do
  let (neg, t) ← x.scanSigns
  if startsDecimal t then
    let (integer, frac) ← x.scanDecimal t
    return Binary64.ofDyadic neg (integer.toInt * 65536 + frac.toInt).toNat 16
  else
    push [t]
    failAt .missingNumber t []

/-- Reads a color: a color space with its components. -/
def scanColor (x : Expander) (command : Token) : Eng Color := do
  if ← x.scanKeyword "rgb" then
    let first ← x.scanColorComponent
    let second ← x.scanColorComponent
    let third ← x.scanColorComponent
    return { space := .rgb, first, second, third }
  else if ← x.scanKeyword "gray" then
    return { space := .gray, first := ← x.scanColorComponent }
  else failAt .cantUse command ["color space expected"]

/-- Reads one of the given directions. -/
def scanDirection (x : Expander) (command : Token) : List Direction → Eng Direction
  | [] => failAt .cantUse command ["direction TLT or TRT expected"]
  | d :: ds => do
    if ← x.scanKeyword d.text then return d else x.scanDirection command ds

/-- Reads a direction and makes it the current one; a space behind it is
    skipped. -/
def assignDirection (x : Expander) (command : Token) (global : Bool) : Eng Unit := do
  let d ← x.scanDirection command [.leftToRight, .rightToLeft]
  assign (.direction d) global
  x.skipOptionalSpace

/-! ## Boxes -/

/-- Reads the size of a box. -/
def scanBoxSpec (x : Expander) : Eng BoxSpec := do
  if ← x.scanKeyword "to" then return .exactly (← x.scanDimen)
  else if ← x.scanKeyword "spread" then return .spread (← x.scanDimen)
  else return .natural

/-- Opens a group. -/
def openGroup (type : GroupType) (start : Token) (deliver : Option Delivery) : Eng Unit := do
  let m ← get
  let (env, traces) := m.env.openGroup type m.input.locator start deliver
  set { m with env }
  traces.forM fun text => trace .info .environment fun _ => text

/-- Closes the innermost group. -/
def closeGroup : Eng Unit := do
  let m ← get
  match m.env.closeGroup Meaning.name (some m.page) with
  | .error f => throw f
  | .ok c =>
    set ({ m with env := c.env, page := c.recorder.getD m.page }.logBoxes m.closing)
    c.traces.forM fun text => trace .info .environment fun _ => text
    push c.afterTokens

/-- Reads the beginning of a box and opens its group; `start` is the token of the
    command that makes the box. -/
def beginBox (x : Expander) (kind : BoxKind) (start : Token) (deliver : Delivery) : Eng Unit := do
  let spec ← x.scanBoxSpec
  x.scanLeftBrace
  modify fun m => { m with page := m.page.openBox kind spec }.logBoxes [.opened kind spec]
  match kind with
  | .horizontal =>
    openGroup .hbox start (some deliver)
    push ((← env).tokens "everyhbox")
  | .vertical =>
    openGroup .vbox start (some deliver)
    push ((← env).tokens "everyvbox")

/-- The contents of a box register, which becomes void unless it is to be kept. -/
def takeBox (n : Int64) (keep : Bool) : Eng (Option Box) := do
  let name := Count.text n
  let env ← env
  logBoxes (BoxEvent.fetch env name keep)
  let b := env.box name
  if b.isSome && !keep then assign (.box name (some none)) false
  return b

/-- Fills a box register. -/
def assignBox (x : Expander) (global : Bool) : Eng Unit := do
  let name := Count.text (← x.scanRegisterNumber)
  x.scanOptionalEquals
  let t ← expect (← x.nextNonRelax?) .missingLeftBrace []
  match ← if t.isCommand then meaning? t else pure none with
  | some (.command (.makeBox kind)) => x.beginBox kind t (.toRegister name global)
  | some (.command (.useBox keep)) =>
    let b ← takeBox (← x.scanRegisterNumber) keep
    assign (.box name (some b)) global
  | _ =>
    push [t]
    failAt .cantUse t ["a box was supposed to be here"]

/-! ## All assignments -/

/-- Performs an assignment; `t` is the token of the command. -/
def performAssigner (x : Expander) (a : Assigner) (t : Token) (global : Bool) : Eng Unit :=
  match a with
  | .arithmetic op => x.assignArithmetic op global
  | .define alwaysGlobal expand => x.assignMacro alwaysGlobal expand global
  | .copyMeaning => x.assignCopy global
  | .copyNextMeaning => x.assignCopyNext global
  | .charDef => x.assignName (fun _ => .charDef <$> x.scanCharCode) global
  | .registerDef bank => x.assignName (fun _ => .register bank <$> x.scanRegisterNumber) global
  | .setBox => x.assignBox global
  | .font => x.assignName (x.scanFontDefinition t) global
  | .color => do assign (.color (← x.scanColor t)) global
  | .textDirection => x.assignDirection t global

end TexEngine.Expander
