/-
  TexEngine.Cli.Arguments

  The command line: options with a value, which start with one or two hyphens,
  and behind them the name of the input file.
-/
import TexEngine.Text.Numeral
import TexEngine.Text.Quoted

namespace TexEngine.Cli

/-- The arguments of the program.  `prune` is the number of bytes of formats that
    are kept, and `rest` what follows the options. -/
structure Arguments where
  config : String := ""
  format : String := ""
  jobName : String := ""
  width : Int := 0
  prune : Int := 67108864
  rest : List String := []
  deriving DecidableEq, Repr, Inhabited

/-- Why the options cannot be understood.  A request for help is one of the
    reasons. -/
inductive ArgumentFault where
  | help
  | badOption (argument : String)
  | unknownOption (name : String)
  | missingValue (name : String)
  | badNumber (value name : String) (reason : Text.Numeral.WordFault)
  deriving DecidableEq, Repr

namespace ArgumentFault

/-- The message for a reason; a request for help needs none. -/
def message? : ArgumentFault → Option String
  | help => none
  | badOption argument => some ("bad flag syntax: " ++ argument)
  | unknownOption name => some ("flag provided but not defined: -" ++ name)
  | missingValue name => some ("flag needs an argument: -" ++ name)
  | badNumber value name reason =>
    some ("invalid value " ++ Text.Quoted.text value ++ " for flag -" ++ name ++ ": " ++
      (match reason with
        | .noNumber => "parse error"
        | .outOfRange => "value out of range"))

end ArgumentFault

/-- The description of the options. -/
def usage : List String :=
  ["Usage of texmacro:",
   "  -config string",
   "    \tread settings from this YAML file",
   "  -fmt string",
   "    \tload this format before reading the input",
   "  -jobname string",
   "    \tthe job name",
   "  -prune int",
   "    \tbytes of old formats to keep in the cache (default 67108864)",
   "  -width int",
   "    \tline width of the text output"]

/-- The value of an option that takes an integer of 64 bits. -/
def integer (name value : String) : Except ArgumentFault Int :=
  (Text.Numeral.word value).mapError (.badNumber value name ·)

namespace Arguments

/-- The names of the options. -/
def names : List String :=
  ["config", "fmt", "jobname", "prune", "width"]

/-- Sets an option. -/
def set (a : Arguments) (name value : String) : Except ArgumentFault Arguments :=
  match name with
  | "config" => .ok { a with config := value }
  | "fmt" => .ok { a with format := value }
  | "jobname" => .ok { a with jobName := value }
  | "prune" => (integer name value).map fun n => { a with prune := n }
  | "width" => (integer name value).map fun n => { a with width := n }
  | _ => .error (.unknownOption name)

end Arguments

/-- An argument on its own: an option with its name and possibly a value, the end
    of the options, or something else. -/
inductive Argument where
  | option (name : String) (value : Option String)
  | endOfOptions
  | plain
  | bad
  deriving DecidableEq, Repr

/-- Splits the name of an option from its value. -/
def splitValue (cs : List Char) : Argument :=
  match cs with
  | [] => .bad
  | c :: rest =>
    if c == '-' || c == '=' then .bad
    else
      let name := String.ofList (c :: rest.takeWhile (· != '='))
      match rest.dropWhile (· != '=') with
      | [] => .option name none
      | _ :: value => .option name (some (String.ofList value))

/-- Classifies an argument. -/
def Argument.ofText (s : String) : Argument :=
  match s.toList with
  | ['-', '-'] => .endOfOptions
  | '-' :: '-' :: cs => splitValue cs
  | '-' :: c :: cs => splitValue (c :: cs)
  | _ => .plain

/-- Reads the options at the beginning of the arguments. -/
def Arguments.parseFrom (a : Arguments) : List String → Except ArgumentFault Arguments
  | [] => .ok { a with rest := [] }
  | s :: rest =>
    match Argument.ofText s with
    | .plain => .ok { a with rest := s :: rest }
    | .endOfOptions => .ok { a with rest }
    | .bad => .error (.badOption s)
    | .option name value =>
      if !names.contains name then
        .error (if name == "help" || name == "h" then .help else .unknownOption name)
      else
        match value, rest with
        | some v, rest => do (← a.set name v).parseFrom rest
        | none, v :: rest => do (← a.set name v).parseFrom rest
        | none, [] => .error (.missingValue name)

/-- Reads the command line. -/
def Arguments.parse (args : List String) : Except ArgumentFault Arguments :=
  ({} : Arguments).parseFrom args

end TexEngine.Cli
