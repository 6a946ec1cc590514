/-
  TexEngine.Engine.Expander

  Reading with expansion.  An expander knows how to expand one token; the
  functions below use it to read tokens that cannot be expanded any further.
  Everything that reads expanded input takes an expander as its argument, so
  that the nesting of expansions is visible in the types: an expansion at some
  depth only uses the expander of the next depth.
-/
import TexEngine.Engine.Machine

namespace TexEngine

/-- How tokens are expanded, and how often a loop may be repeated. -/
structure Expander where
  fuel : Nat
  expand : Meaning → Token → Eng Unit

namespace Expander

open Eng

/-- The next token that cannot be expanded, or that is marked as not to be
    expanded. -/
def next? (x : Expander) : Eng (Option Token) :=
  iterate (fun _ => do
    match ← token? with
    | none => return .done none
    | some t =>
      if (← isFrozen) || !t.isCommand then return .done (some t)
      match ← meaning? t with
      | some m =>
        if m.isExpandable then
          x.expand m t
          return .again ()
        else return .done (some t)
      | none => return .done (some t)) x.fuel ()

/-- The next expanded token that is not a space. -/
def nextNonSpace? (x : Expander) : Eng (Option Token) :=
  iterate (fun _ => do
    match ← x.next? with
    | none => return .done none
    | some t => return if t.hasCat .space then .again () else .done (some t)) x.fuel ()

/-- The next expanded token that is neither a space nor \relax. -/
def nextNonRelax? (x : Expander) : Eng (Option Token) :=
  iterate (fun _ => do
    match ← x.next? with
    | none => return .done none
    | some t =>
      if t.hasCat .space || (← isFrozen) || (← meaning? t) == some Meaning.relax then
        return .again ()
      else return .done (some t)) x.fuel ()

end Expander

end TexEngine
