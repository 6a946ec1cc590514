/-
  TexEngine.Cli.Program

  The program: it reads the settings, opens the store of formats, loads a format
  if one is wanted, processes the input file, and writes the text of the page.
  What it writes to the log and to its output, and the files it leaves behind,
  are the result of a pure function of its arguments and the files it sees.
-/
import TexEngine.Cli.Arguments
import TexEngine.Config.Load
import TexEngine.Engine.Run
import TexEngine.Format.Store
import TexEngine.Material.Fill

namespace TexEngine.Cli

/-- What the program finds when it starts: its files, the directory of formats
    that was asked for, the user's cache directory and home directory. -/
structure Surroundings where
  files : FileTree
  formats : String := ""
  cache : String := ""
  home : String := ""

/-- What the program leaves behind.  Every item of the log is one message, and
    `sought` lists the files that were looked for. -/
structure Report where
  exit : Nat := 0
  output : String := ""
  log : Array String := #[]
  files : FileTree := {}
  sought : Array String := #[]

/-- Steps of the program; a failed step ends it. -/
abbrev Program := EStateM Unit Report

namespace Program

/-- Writes a message to the log. -/
def note (message : String) : Program Unit :=
  modify fun r => { r with log := r.log.push message }

/-- Writes messages to the log. -/
def notes (messages : List String) : Program Unit :=
  messages.forM note

/-- Ends the program with the given exit code. -/
def stop {α : Type} (code : Nat) : Program α := do
  modify fun r => { r with exit := code }
  throw ()

/-- Ends the program with a message. -/
def fatal {α : Type} (message : String) : Program α := do
  note message
  stop 1

/-- Records that a file was looked for. -/
def seek (path : String) : Program Unit :=
  modify fun r => { r with sought := r.sought.push path }

/-- The files as they are now. -/
def files : Program FileTree := do
  return (← get).files

/-- Replaces the files. -/
def setFiles (files : FileTree) : Program Unit :=
  modify fun r => { r with files }

/-! ## Steps -/

/-- The options and the name of the input file. -/
def arguments (args : List String) : Program (Arguments × String) := do
  match Arguments.parse args with
  | .error fault =>
    notes (fault.message?.toList ++ usage)
    stop (if fault == .help then 0 else 2)
  | .ok a =>
    match a.rest with
    | [input] => return (a, input)
    | _ => fatal "usage: texmacro [options] <input.tex>"

/-- The name of a job that was given none: the name of the input file without
    directory and extension. -/
def jobOf (input : String) : String :=
  let base := Path.base input
  if base.endsWith Reader.defaultExtension then
    String.ofList (base.toList.take (base.length - Reader.defaultExtension.length))
  else base

/-- The settings, with those from the command line taking precedence. -/
def settings (a : Arguments) (input : String) : Program Config := do
  let c ←
    if a.config.isEmpty then pure {}
    else
      seek a.config
      match Config.load (← files) a.config with
      | .ok c => pure c
      | .error fault => fatal fault.message
  let c := if a.format.isEmpty then c else { c with format := a.format }
  if !a.jobName.isEmpty then return { c with jobName := a.jobName }
  else if c.jobName.isEmpty || c.jobName == Machine.defaultJobName then
    return { c with jobName := jobOf input }
  else return c

/-- Opens the store of formats. -/
def openStore (s : Surroundings) (c : Config) : Program FormatStore := do
  let dir ←
    if !c.formatCache.isEmpty then pure c.formatCache
    else
      match FormatStore.defaultDir s.formats s.cache s.home with
      | .ok dir => pure dir
      | .error fault => fatal fault.message
  seek dir
  match FormatStore.openIn (← files) dir with
  | .error fault => fatal fault.message
  | .ok o =>
    notes o.log
    setFiles o.tree
    return o.value

/-- The machine for the settings. -/
def machine (c : Config) (files : FileTree) : Machine :=
  let m := Machine.new
    { preset := Preset.ofName c.catcodes, unicodeLetters := c.unicodeLetters,
      jobName := c.jobName,
      limits :=
        { expansionDepth := c.maxExpansionDepth.toInt.toNat,
          pushback := c.maxPushback.toInt.toNat,
          inputDepth := c.maxInputDepth.toInt.toNat } }
  { m with files, input := { baseDir := c.baseDir } }

/-- Loads the format that the settings ask for. -/
def loadFormat (c : Config) (store : FormatStore) (m : Machine) :
    Program (FormatStore × Machine) := do
  if c.format.isEmpty then return (store, m)
  seek (store.path (FormatStore.key c.format))
  match store.get (← files) c.format with
  | .error fault => fatal ("format " ++ c.format ++ ": " ++ fault.message)
  | .ok (img, store, tree) =>
    setFiles tree
    match m.load img with
    | .ok m => return (store, m)
    | .error fault => fatal ("format " ++ c.format ++ ": " ++ fault.message)

/-- Gives the integer parameters the values of the settings. -/
def setCounts (c : Config) (m : Machine) : Machine :=
  let set (env : Env Meaning) (name : String) (v : Int64) : Env Meaning :=
    env.assign (.count name (some v)) true
  let env := set (set m.env "endlinechar" c.endLineChar) "mag" c.mag
  { m with env := c.counts.foldl set env }

/-- The messages for an event. -/
def eventNotes : Event → List String
  | .message text => [text]
  | .write stream text =>
    if stream < 0 ∨ stream > 15 then [text]
    else ["write" ++ Count.text stream ++ ": " ++ text]
  | .undefined t locator => [locator.text ++ ": undefined control sequence " ++ t.text]
  | .opened name isFile => if isFile then ["(" ++ name] else []
  | .closed name isFile => if isFile then [name ++ ")"] else []
  | .dumped job => ["writing format " ++ job]
  | .sought _ => []
  | .trace _ _ _ => []

/-- The paths of an event: a file is also looked for with the usual extension. -/
def soughtPaths : Event → List String
  | .sought path => [path, path ++ Reader.defaultExtension]
  | _ => []

/-- The number of undefined control sequences that were reported. -/
def undefinedCount (log : Array Event) : Nat :=
  log.countP (· matches .undefined _ _)

/-- Writes what happened to the log. -/
def report (log : Array Event) : Program Unit :=
  log.forM fun e => do
    notes (eventNotes e)
    (soughtPaths e).forM seek

/-- Stores the format that was made, if any. -/
def storeFormat (store : FormatStore) (m : Machine) : Program FormatStore := do
  match m.image with
  | none => return store
  | some img =>
    match store.put (← files) img with
    | .error fault => fatal fault.message
    | .ok (store, tree) =>
      setFiles tree
      return store

/-- The width of the output, if none is asked for. -/
def defaultWidth : Int := 79

/-- The whole program. -/
def run (fuel : Nat) (s : Surroundings) (args : List String) : Program Unit := do
  setFiles s.files
  let (a, input) ← arguments args
  let c ← settings a input
  let store ← openStore s c
  let (store, m) ← loadFormat c store (machine c (← files))
  let job : Eng Unit := do
    Eng.includeFile input
    Eng.run fuel
  let (m, fault) :=
    match job (setCounts c m) with
    | .ok _ m => (m, none)
    | .error fault m => (m, some fault)
  -- What the job has left is reported and stored even if it failed.
  report m.log
  let store ← storeFormat store m
  if let some fault := fault then fatal fault.message
  let undefined := undefinedCount m.log
  if undefined > 0 then note (toString undefined ++ " undefined control sequences")
  let width := if a.width > 0 then a.width else defaultWidth
  modify fun r => { r with output := m.page.filled width }
  let o := store.close (← files) a.prune
  notes o.log
  setFiles o.tree
  if let some fault := o.value then note fault.message

end Program

/-- Runs the program on its arguments. -/
def run (fuel : Nat) (s : Surroundings) (args : List String) : Report :=
  match Program.run fuel s args {} with
  | .ok _ r => r
  | .error _ r => r

end TexEngine.Cli
