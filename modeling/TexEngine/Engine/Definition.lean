/-
  TexEngine.Engine.Definition

  Reading macro definitions: the parameter text up to the opening brace, and the
  body, in which parameter characters with a digit become parameters and doubled
  parameter characters stand for one.
-/
import TexEngine.Engine.Scan.Tokens

namespace TexEngine.Expander

open Eng

/-- What has been read of a parameter text: the pattern, latest token first, the
    number of parameters, and the brace that ends the text, if it is part of the
    pattern. -/
structure ParameterText where
  pattern : TokenList := []
  params : Nat := 0
  brace : Option Token := none

/-- Reads a parameter text and the opening brace behind it. -/
def scanParameterText (x : Expander) : Eng ParameterText :=
  iterate (fun p => do
    let t ← expect (← token?) .missingLeftBrace []
    if t.hasCat .beginGroup then return .done { p with pattern := p.pattern.reverse }
    else if t.hasCat .endGroup then failAt .missingLeftBrace t []
    else if t.hasCat .parameter then
      let next ← expect (← token?) .missingLeftBrace []
      if next.hasCat .beginGroup then
        -- This brace ends the text, and a call has to have it as well.
        return .done { p with pattern := (next :: p.pattern).reverse, brace := some next }
      -- The parameters are numbered from 1 on, and 49 is the code of this digit.
      else if !next.isChar || next.code ≠ 49 + p.params || p.params ≥ 9 then
        failAt .parameterNumber next []
      else
        return .again
          { p with pattern := .param (p.params + 1) :: p.pattern, params := p.params + 1 }
    else return .again { p with pattern := t :: p.pattern }) x.fuel ({} : ParameterText)

/-- Reads what follows a parameter character in the body of a macro with the
    given number of parameters. -/
def scanParameter (params : Nat) : Eng Token := do
  let next ← expect (← token?) .unterminatedGroup []
  if next.hasCat .parameter then return next
  else if !next.isChar || next.code < 49 || next.code > 57 then failAt .illegalParameter next []
  else
    let k := (next.code - 48).toNat
    if k > params then failAt .illegalParameter next ["#" ++ toString k]
    else return .param k

/-- Reads the body of a macro, up to the brace that closes it. -/
def scanBody (x : Expander) (params : Nat) (expand : Bool) : Eng TokenList :=
  iterate (fun (depth, seen) => do
    let t ← expect (← token?) .unterminatedGroup []
    let item ← if expand then x.expandItem t else pure .plain
    match item with
    | .final ts => return .again (depth, ts.reverse ++ seen)
    | .expanded => return .again (depth, seen)
    | .plain =>
      if t.hasCat .parameter then return .again (depth, (← scanParameter params) :: seen)
      else
        match braceDepth? depth t with
        | none => return .done seen.reverse
        | some depth => return .again (depth, t :: seen)) x.fuel (0, ([] : TokenList))

/-- Reads the definition of a macro; with `expand`, the body is expanded. -/
def scanDefinition (x : Expander) (name : String) (expand : Bool) : Eng MacroDef := do
  let p ← x.scanParameterText
  let body ← x.scanBody p.params expand
  return { name, pattern := p.pattern, body := body ++ p.brace.toList }

end TexEngine.Expander
