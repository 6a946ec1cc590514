/-
  TexEngine.Error

  Errors.  An error has a kind, some details, possibly the offending token, and
  the input streams that were being read, innermost first.  Faults are the ways
  in which an operation can fail: an error of the language, a file that cannot
  be read, a failure outside of the language, or a step budget that ran out.
-/
import TexEngine.Arith.Dimen
import TexEngine.Locator
import TexEngine.Text.Quoted
import TexEngine.Token.Basic

namespace TexEngine

/-! ## Kinds -/

/-- The error conditions of the language. -/
inductive ErrorKind where
  -- scanning
  | missingNumber | numberTooBig | illegalUnit | dimenTooLarge | missingLeftBrace
  | missingControlSequence | missingEndcsname | missingRelation | unterminatedGroup
  | invalidCharacter | badCharCode | badRegister | badCatcode | fileNotFound
  -- expansion
  | extraElse | extraFi | extraOr | runawayConditional | runawayArgument | patternMismatch
  | extraRightBrace | parameterNumber | illegalParameter | recursionTooDeep | outerInArgument
  -- assignments
  | arithmeticOverflow | immutable | illegalMag | tooManyRightBraces | extraEndgroup
  | groupMismatch | cantUse | cantUsePrefix | dumpInGroup | userError
  -- a number without a condition
  | unlisted (code : Int)
  deriving DecidableEq, Repr, Inhabited

namespace ErrorKind

/-- All conditions, numbered from 1. -/
def all : List ErrorKind :=
  [missingNumber, numberTooBig, illegalUnit, dimenTooLarge, missingLeftBrace,
   missingControlSequence, missingEndcsname, missingRelation, unterminatedGroup,
   invalidCharacter, badCharCode, badRegister, badCatcode, fileNotFound,
   extraElse, extraFi, extraOr, runawayConditional, runawayArgument, patternMismatch,
   extraRightBrace, parameterNumber, illegalParameter, recursionTooDeep, outerInArgument,
   arithmeticOverflow, immutable, illegalMag, tooManyRightBraces, extraEndgroup,
   groupMismatch, cantUse, cantUsePrefix, dumpInGroup, userError]

/-- The condition with the given number. -/
def ofCode (n : Int) : ErrorKind :=
  if 1 ≤ n then all.getD (n - 1).toNat (unlisted n) else unlisted n

/-- What is wrong. -/
def text : ErrorKind → String
  | missingNumber => "missing number"
  | numberTooBig => "number too big"
  | illegalUnit => "illegal unit of measure"
  | dimenTooLarge => "dimension too large"
  | missingLeftBrace => "missing \x7b inserted"
  | missingControlSequence => "missing control sequence"
  | missingEndcsname => "missing \\endcsname"
  | missingRelation => "missing = inserted for conditional"
  | unterminatedGroup => "unterminated group"
  | invalidCharacter => "text line contains an invalid character"
  | badCharCode => "bad character code"
  | badRegister => "bad register code"
  | badCatcode => "invalid code"
  | fileNotFound => "file not found"
  | extraElse => "extra \\else"
  | extraFi => "extra \\fi"
  | extraOr => "extra \\or"
  | runawayConditional => "incomplete conditional"
  | runawayArgument => "runaway argument"
  | patternMismatch => "use of macro does not match its definition"
  | extraRightBrace => "argument has an extra \x7d"
  | parameterNumber => "parameters must be numbered consecutively"
  | illegalParameter => "illegal parameter number in definition"
  | recursionTooDeep => "recursion too deep"
  | outerInArgument => "forbidden \\outer control sequence"
  | arithmeticOverflow => "arithmetic overflow"
  | immutable => "cannot mutate immutable value"
  | illegalMag => "illegal magnification"
  | tooManyRightBraces => "too many \x7d's"
  | extraEndgroup => "extra \\endgroup"
  | groupMismatch => "group closed by the wrong delimiter"
  | cantUse => "you can't use this here"
  | cantUsePrefix => "you can't use a prefix with this command"
  | dumpInGroup => "\\dump is not allowed inside a group"
  | userError => "user error"
  | unlisted code => "error " ++ toString code

end ErrorKind

/-! ## Errors -/

/-- One input stream at the time of an error. -/
structure Frame where
  name : String
  line : Int
  column : Int
  context : String
  deriving DecidableEq, Repr, Inhabited

/-- The lines that describe a stream. -/
def Frame.text (f : Frame) : String :=
  "\n    " ++ f.name ++ ", line " ++ toString f.line ++
    (if f.context.isEmpty then "" else ", before " ++ Text.Quoted.text f.context)

/-- An error of the language. -/
structure TexError where
  kind : ErrorKind
  details : List String := []
  token : Option Token := none
  stack : List Frame := []
  deriving DecidableEq, Repr, Inhabited

namespace TexError

/-- The error that an arithmetic fault becomes. -/
def ofArith : ArithFault → TexError
  | .overflow => { kind := .arithmeticOverflow }
  | .divisionByZero => { kind := .arithmeticOverflow, details := ["division by zero"] }
  | .dimenTooLarge => { kind := .dimenTooLarge }
  | .illegalUnit unit => { kind := .illegalUnit, details := [unit] }
  | .illegalMag mag => { kind := .illegalMag, details := [Count.text mag] }

/-- The position in the innermost stream. -/
def locator (e : TexError) : Locator :=
  match e.stack with
  | [] => {}
  | f :: _ => { name := f.name, line := f.line, column := f.column }

/-- The full message. -/
def message (e : TexError) : String :=
  e.kind.text ++
    (match e.token with
      | some t => " (" ++ t.text ++ ")"
      | none => "") ++
    String.join (e.details.map (" " ++ ·)) ++
    String.intercalate ", included from" (e.stack.map Frame.text)

/-- Records the offending token, unless one is known already. -/
def blame (e : TexError) (t : Token) : TexError :=
  match e.token with
  | some _ => e
  | none => { e with token := some t }

/-- Records the input streams, unless they are known already. -/
def annotate (e : TexError) (frames : List Frame) : TexError :=
  if e.stack.isEmpty then { e with stack := frames } else e

end TexError

/-! ## Faults -/

/-- Why an operation failed. -/
inductive Fault where
  | tex (error : TexError)
  | missingFile (message : String)
  | failure (message : String)
  | outOfFuel
  deriving DecidableEq, Repr, Inhabited

namespace Fault

/-- The text of a fault. -/
def message : Fault → String
  | tex e => e.message
  | missingFile m => m
  | failure m => m
  | outOfFuel => "step budget exhausted"

/-- The fault is an error of the given kind. -/
def hasKind (f : Fault) (k : ErrorKind) : Bool :=
  match f with
  | tex e => e.kind == k
  | _ => false

end Fault

end TexEngine
