/-
  TexEngine.Engine.Scan.Keyword

  Keywords, and the optional spaces and signs around them.
-/
import TexEngine.Engine.Expander
import TexEngine.Text.CaseMap

namespace TexEngine.Expander

open Eng

/-- Reads a keyword, in capital or small letters and with spaces in front.  If
    the keyword is not there, everything that was read is put back. -/
def scanKeyword (x : Expander) (keyword : String) : Eng Bool :=
  iterate (fun (wanted, started, seen) => do
    match wanted with
    | [] => return .done true
    | k :: ks =>
      match ← x.next? with
      | none =>
        push seen.reverse
        return .done false
      | some t =>
        if t.isChar && !t.isActive && Text.toSmall t.code == k then
          return .again (ks, true, t :: seen)
        -- Spaces are skipped in front of the keyword, but not inside of it.
        else if !started && t.hasCat .space then return .again (wanted, started, t :: seen)
        else
          -- Everything that was read is put back, with the spaces.
          push (t :: seen).reverse
          return .done false)
    x.fuel (CharCode.ofText (Text.toSmallText keyword), false, ([] : TokenList))

/-- Skips spaces and one equals sign, if there is one. -/
def scanOptionalEquals (x : Expander) : Eng Unit := do
  match ← x.nextNonSpace? with
  | none => pure ()
  | some t => unless t.isOther '=' do push [t]

/-- Skips one space, if there is one. -/
def skipOptionalSpace (x : Expander) : Eng Unit := do
  match ← x.next? with
  | none => pure ()
  | some t => unless t.hasCat .space do push [t]

/-- Reads signs and spaces, and the first token behind them.  The result tells
    whether the number of minus signs is odd. -/
def scanSigns (x : Expander) : Eng (Bool × Token) :=
  iterate (fun neg => do
    let t ← expect (← x.next?) .missingNumber []
    if t.hasCat .space || t.isOther '+' then return .again neg
    else if t.isOther '-' then return .again (!neg)
    else return .done (neg, t)) x.fuel false

end TexEngine.Expander
