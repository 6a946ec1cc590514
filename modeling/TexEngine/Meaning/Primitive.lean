/-
  TexEngine.Meaning.Primitive

  The built-in commands, grouped by how they work: those that expand to other
  tokens, conditionals, quantities that can be read and assigned, assignments,
  modifiers of assignments, and commands that act at once.
-/
import TexEngine.Env.CodeTable
import TexEngine.Material.Node

namespace TexEngine

/-! ## Expansion -/

/-- Primitives that are replaced by other tokens. -/
inductive Expandable where
  | expandafter | noexpand | csname | string | number | romannumeral | the | meaning | jobname
  | fontname | input | endinput | scantokens
  deriving DecidableEq, Repr, Inhabited

namespace Expandable

/-- All expandable primitives. -/
def all : List Expandable :=
  [expandafter, noexpand, csname, string, number, romannumeral, the, meaning, jobname, fontname,
   input, endinput, scantokens]

/-- The name of a primitive. -/
def name : Expandable → String
  | expandafter => "expandafter"
  | noexpand => "noexpand"
  | csname => "csname"
  | string => "string"
  | number => "number"
  | romannumeral => "romannumeral"
  | the => "the"
  | meaning => "meaning"
  | jobname => "jobname"
  | fontname => "fontname"
  | input => "input"
  | endinput => "endinput"
  | scantokens => "scantokens"

end Expandable

/-- The tests of conditionals. -/
inductive Test where
  | always | never | number | dimension | odd | sameMeaning | sameChar | sameCategory
  | voidBox | horizontalBox | verticalBox | defined | definedName
  deriving DecidableEq, Repr, Inhabited

namespace Test

/-- All tests. -/
def all : List Test :=
  [always, never, number, dimension, odd, sameMeaning, sameChar, sameCategory, voidBox,
   horizontalBox, verticalBox, defined, definedName]

/-- The name of the conditional with a test. -/
def name : Test → String
  | always => "iftrue"
  | never => "iffalse"
  | number => "ifnum"
  | dimension => "ifdim"
  | odd => "ifodd"
  | sameMeaning => "ifx"
  | sameChar => "if"
  | sameCategory => "ifcat"
  | voidBox => "ifvoid"
  | horizontalBox => "ifhbox"
  | verticalBox => "ifvbox"
  | defined => "ifdefined"
  | definedName => "ifcsname"

end Test

/-- Primitives that make up conditionals. -/
inductive CondPrimitive where
  | test (t : Test)
  | ifCase
  | orElse
  | orCase
  | endIf
  deriving DecidableEq, Repr, Inhabited

namespace CondPrimitive

/-- All primitives of conditionals. -/
def all : List CondPrimitive :=
  Test.all.map test ++ [ifCase, orElse, orCase, endIf]

/-- The name of a primitive. -/
def name : CondPrimitive → String
  | test t => t.name
  | ifCase => "ifcase"
  | orElse => "else"
  | orCase => "or"
  | endIf => "fi"

end CondPrimitive

/-! ## Quantities -/

/-- The register banks. -/
inductive Bank where
  | count
  | dimen
  | skip
  | toks
  deriving DecidableEq, Repr, Inhabited

namespace Bank

/-- All register banks. -/
def all : List Bank :=
  [count, dimen, skip, toks]

/-- The name of a bank. -/
def name : Bank → String
  | count => "count"
  | dimen => "dimen"
  | skip => "skip"
  | toks => "toks"

end Bank

/-- The type of the value of a quantity. -/
inductive ValueKind where
  | int
  | dimen
  | glue
  | toks
  deriving DecidableEq, Repr, Inhabited

/-- The type of the registers of a bank. -/
def Bank.kind : Bank → ValueKind
  | count => .int
  | dimen => .dimen
  | skip => .glue
  | toks => .toks

/-- Primitives that denote a quantity. -/
inductive Quantity where
  | parameter (bank : Bank) (name : String)
  | register (bank : Bank)
  | inputLine
  | groupLevel
  | conditionalLevel
  | catcode
  | charCode (table : CodeTable)
  | fontDimen
  deriving DecidableEq, Repr, Inhabited

namespace Quantity

/-- The integer parameters. -/
def intParameters : List String :=
  ["pretolerance", "tolerance", "hbadness", "vbadness", "linepenalty", "hyphenpenalty",
   "exhyphenpenalty", "binoppenalty", "relpenalty", "clubpenalty", "widowpenalty",
   "displaywidowpenalty", "brokenpenalty", "predisplaypenalty", "postdisplaypenalty",
   "interlinepenalty", "floatingpenalty", "outputpenalty", "doublehyphendemerits",
   "finalhyphendemerits", "adjdemerits", "looseness", "pausing", "holdinginserts",
   "tracingonline", "tracingmacros", "tracingstats", "tracingparagraphs", "tracingpages",
   "tracingoutput", "tracinglostchars", "tracingcommands", "tracingrestores", "tracinggroups",
   "tracingifs", "language", "uchyph", "lefthyphenmin", "righthyphenmin", "globaldefs",
   "defaulthyphenchar", "defaultskewchar", "escapechar", "endlinechar", "newlinechar",
   "maxdeadcycles", "hangafter", "fam", "mag", "delimiterfactor", "time", "day", "month", "year",
   "showboxbreadth", "showboxdepth", "errorcontextlines"]

/-- The length parameters. -/
def dimenParameters : List String :=
  ["hfuzz", "vfuzz", "overfullrule", "emergencystretch", "hsize", "vsize", "maxdepth",
   "splitmaxdepth", "boxmaxdepth", "lineskiplimit", "delimitershortfall", "nulldelimiterspace",
   "scriptspace", "mathsurround", "predisplaysize", "displaywidth", "displayindent", "parindent",
   "hangindent", "hoffset", "voffset"]

/-- The glue parameters. -/
def glueParameters : List String :=
  ["baselineskip", "lineskip", "parskip", "abovedisplayskip", "belowdisplayskip",
   "abovedisplayshortskip", "belowdisplayshortskip", "leftskip", "rightskip", "topskip",
   "splittopskip", "tabskip", "spaceskip", "xspaceskip", "parfillskip"]

/-- The token list parameters. -/
def toksParameters : List String :=
  ["output", "everypar", "everymath", "everydisplay", "everyhbox", "everyvbox", "everyjob",
   "everycr", "errhelp"]

/-- All primitive quantities. -/
def all : List Quantity :=
  intParameters.map (parameter .count) ++ dimenParameters.map (parameter .dimen) ++
    glueParameters.map (parameter .skip) ++ toksParameters.map (parameter .toks) ++
    Bank.all.map register ++ [inputLine, groupLevel, conditionalLevel, catcode] ++
    CodeTable.all.map charCode ++ [fontDimen]

/-- The name of a quantity. -/
def name : Quantity → String
  | parameter _ name => name
  | register bank => bank.name
  | inputLine => "inputlineno"
  | groupLevel => "currentgrouplevel"
  | conditionalLevel => "currentiflevel"
  | catcode => "catcode"
  | charCode table => table.text
  | fontDimen => "fontdimen"

/-- The type of a quantity. -/
def kind : Quantity → ValueKind
  | parameter bank _ => bank.kind
  | register bank => bank.kind
  | fontDimen => .dimen
  | _ => .int

end Quantity

/-! ## Assignments -/

/-- The arithmetic assignments. -/
inductive ArithOp where
  | advance
  | multiply
  | divide
  deriving DecidableEq, Repr, Inhabited

/-- The name of an arithmetic assignment. -/
def ArithOp.name : ArithOp → String
  | advance => "advance"
  | multiply => "multiply"
  | divide => "divide"

/-- Primitives that assign.  A definition may be global in any case, and may
    expand the body. -/
inductive Assigner where
  | arithmetic (op : ArithOp)
  | define (alwaysGlobal expand : Bool)
  | copyMeaning
  | copyNextMeaning
  | charDef
  | registerDef (bank : Bank)
  | setBox
  | font
  | color
  | textDirection
  deriving DecidableEq, Repr, Inhabited

namespace Assigner

/-- All assigning primitives. -/
def all : List Assigner :=
  [arithmetic .advance, arithmetic .multiply, arithmetic .divide, define false false,
   define true false, define false true, define true true, copyMeaning, copyNextMeaning, charDef] ++
    Bank.all.map registerDef ++ [setBox, font, color, textDirection]

/-- The name of an assigning primitive. -/
def name : Assigner → String
  | arithmetic op => op.name
  | define false false => "def"
  | define true false => "gdef"
  | define false true => "edef"
  | define true true => "xdef"
  | copyMeaning => "let"
  | copyNextMeaning => "futurelet"
  | charDef => "chardef"
  | registerDef bank => bank.name ++ "def"
  | setBox => "setbox"
  | font => "font"
  | color => "color"
  | textDirection => "textdir"

/-- Definitions of macros accept more modifiers. -/
def isDefinition : Assigner → Bool
  | define _ _ => true
  | _ => false

end Assigner

/-- Words in front of an assignment or command that modify it. -/
inductive Modifier where
  | isGlobal
  | isLong
  | isOuter
  | isProtected
  | isImmediate
  | isExpanded
  deriving DecidableEq, Repr, Inhabited

namespace Modifier

/-- All modifiers. -/
def all : List Modifier :=
  [isGlobal, isLong, isOuter, isProtected, isImmediate, isExpanded]

/-- The name of a modifier. -/
def name : Modifier → String
  | isGlobal => "global"
  | isLong => "long"
  | isOuter => "outer"
  | isProtected => "protected"
  | isImmediate => "immediate"
  | isExpanded => "expanded"

end Modifier

/-- The modifiers that apply to the next command. -/
structure Modifiers where
  isGlobal : Bool := false
  isLong : Bool := false
  isOuter : Bool := false
  isProtected : Bool := false
  isImmediate : Bool := false
  isExpanded : Bool := false
  deriving DecidableEq, Repr, Inhabited

namespace Modifiers

/-- At least one modifier applies. -/
def any (m : Modifiers) : Bool :=
  m != {}

/-- A modifier that only definitions accept applies. -/
def forDefinition (m : Modifiers) : Bool :=
  m.isLong || m.isOuter || m.isProtected || m.isExpanded

/-- Adds a modifier. -/
def add (m : Modifiers) : Modifier → Modifiers
  | .isGlobal => { m with isGlobal := true }
  | .isLong => { m with isLong := true }
  | .isOuter => { m with isOuter := true }
  | .isProtected => { m with isProtected := true }
  | .isImmediate => { m with isImmediate := true }
  | .isExpanded => { m with isExpanded := true }

end Modifiers

/-! ## Commands -/

/-- Primitives that act at once. -/
inductive Command where
  | endcsname | begingroup | endgroup | aftergroup | afterassignment
  | makeBox (kind : BoxKind) | useBox (keep : Bool)
  | controlSpace | char | skip (vertical : Bool) | kern | penalty | par | relax | ignorespaces
  | changeCase (toCapital : Bool) | endJob | dump | message | showMeaning | showValue | write
  | errmessage
  deriving DecidableEq, Repr, Inhabited

namespace Command

/-- All commands. -/
def all : List Command :=
  [endcsname, begingroup, endgroup, aftergroup, afterassignment, makeBox .horizontal,
   makeBox .vertical, useBox false, useBox true, controlSpace, char, skip false, skip true, kern,
   penalty, par, relax, ignorespaces, changeCase true, changeCase false, endJob, dump, message,
   showMeaning, showValue, write, errmessage]

/-- The name of a command. -/
def name : Command → String
  | endcsname => "endcsname"
  | begingroup => "begingroup"
  | endgroup => "endgroup"
  | aftergroup => "aftergroup"
  | afterassignment => "afterassignment"
  | makeBox .horizontal => "hbox"
  | makeBox .vertical => "vbox"
  | useBox false => "box"
  | useBox true => "copy"
  | controlSpace => " "
  | char => "char"
  | skip false => "hskip"
  | skip true => "vskip"
  | kern => "kern"
  | penalty => "penalty"
  | par => "par"
  | relax => "relax"
  | ignorespaces => "ignorespaces"
  | changeCase true => "uppercase"
  | changeCase false => "lowercase"
  | endJob => "end"
  | dump => "dump"
  | message => "message"
  | showMeaning => "show"
  | showValue => "showthe"
  | write => "write"
  | errmessage => "errmessage"

end Command

end TexEngine
