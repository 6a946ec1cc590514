/-
  TexEngine.Engine.Run

  Jobs: setting up a machine, processing all input, and the checks at the end.
-/
import TexEngine.Engine.Execute

namespace TexEngine

/-- How a machine is set up. -/
structure Options where
  preset : Preset := .initex
  unicodeLetters : Bool := false
  jobName : String := ""
  limits : Limits := {}

namespace Machine

/-- A machine with all primitives defined. -/
def new (o : Options) : Machine :=
  { env := { Env.initial o.preset o.unicodeLetters with codes := Meaning.primitiveTable },
    jobName := if o.jobName.isEmpty then defaultJobName else o.jobName,
    limits := o.limits }

/-- What is wrong at the end of a job, if anything: an open group, an open
    conditional, or an open box. -/
def finish (m : Machine) : Except Fault Unit :=
  match m.env.groups with
  | g :: _ =>
    .error (.tex { kind := .unterminatedGroup,
                   details := [g.type.text, "group opened at", g.locator.text] })
  | [] =>
    match m.env.conditionals.back? with
    | some c =>
      .error (.tex { kind := .runawayConditional,
                     details := ["\\" ++ c.primitive, "opened at", c.locator.text] })
    | none =>
      match m.page.unfinished? with
      | some message => .error (.failure message)
      | none => .ok ()

end Machine

namespace Expander

open Eng

/-- Processes all input.  Marked tokens that nothing else reads are skipped. -/
def run (x : Expander) : Eng Unit := do
  push ((← env).tokens "everyjob")
  iterate (fun _ => do
    if (← get).stopped then return .done ()
    match ← x.next? with
    | none => return .done ()
    | some t =>
      unless ← isFrozen do x.execute t
      return .again ()) x.fuel ()
  match (← get).finish with
  | .ok () => pure ()
  | .error f => throw f

end Expander

namespace Eng

/-- Processes all input. -/
def run (fuel : Nat) : Eng Unit :=
  withExpander fuel Expander.run

end Eng

end TexEngine
