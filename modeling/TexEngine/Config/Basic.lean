/-
  TexEngine.Config.Basic

  The settings of a job, and the conditions that they have to meet.
-/
import Std.Data.TreeMap.Basic
import TexEngine.Event
import TexEngine.Text.Blank
import TexEngine.Text.CaseMap
import TexEngine.Text.Quoted

namespace TexEngine

/-- The settings of a job.  `trace` maps the names of diagnostics to levels, and
    `counts` gives values to integer parameters. -/
structure Config where
  jobName : String := "texput"
  baseDir : String := ""
  catcodes : String := "initex"
  unicodeLetters : Bool := false
  endLineChar : Int64 := 13
  maxExpansionDepth : Int64 := 5000
  maxPushback : Int64 := 4194304
  maxInputDepth : Int64 := 100
  mag : Int64 := 1000
  formatCache : String := ""
  format : String := ""
  trace : Std.TreeMap String String := ∅
  counts : Std.TreeMap String Int64 := ∅

/-- What can be wrong with settings. -/
inductive ConfigProblem where
  | unknownPreset (name : String)
  | illegalMag (mag : Int64)
  | limitNotPositive
  | unknownLevel (name : String)
  deriving DecidableEq, Repr

/-- The text of a problem. -/
def ConfigProblem.text : ConfigProblem → String
  | unknownPreset name => "unknown catcode preset " ++ Text.Quoted.text name
  | illegalMag mag => "illegal magnification " ++ toString mag.toInt
  | limitNotPositive => "limits must be positive"
  | unknownLevel name => "unknown trace level " ++ Text.Quoted.text name

/-- The level with the given name, in any mixture of case and surrounded by any
    amount of white space. -/
def TraceLevel.ofName? (s : String) : Option TraceLevel :=
  let name := Text.toSmallText (Text.trimBlank s)
  [TraceLevel.error, TraceLevel.info, TraceLevel.debug].find? (·.text == name)

namespace Config

/-- The first problem of the settings, if any. -/
def problem? (c : Config) : Option ConfigProblem :=
  if c.catcodes != "initex" && c.catcodes != "plain" then some (.unknownPreset c.catcodes)
  else if c.mag ≤ 0 ∨ c.mag > 32768 then some (.illegalMag c.mag)
  else if c.maxExpansionDepth ≤ 0 ∨ c.maxPushback ≤ 0 ∨ c.maxInputDepth ≤ 0 then
    some .limitNotPositive
  else
    (c.trace.values.find? fun l => (TraceLevel.ofName? l).isNone).map .unknownLevel

/-- The diagnostics with their levels, in the order of their names. -/
def levels (c : Config) : List (String × TraceLevel) :=
  c.trace.toList.filterMap fun (name, l) => (TraceLevel.ofName? l).map (name, ·)

end Config

end TexEngine
