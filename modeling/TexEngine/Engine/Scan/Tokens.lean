/-
  TexEngine.Engine.Scan.Tokens

  Balanced texts, with and without expansion, token list values, file names, and
  the tokens that \the gives.
-/
import TexEngine.Engine.Scan.Dimen

namespace TexEngine

/-! ## Braces -/

/-- The brace depth behind a token; `none` if the token closes a brace that is
    not open. -/
def braceDepth? (depth : Nat) (t : Token) : Option Nat :=
  if t.hasCat .beginGroup then some (depth + 1)
  else if t.hasCat .endGroup then
    match depth with
    | 0 => none
    | d + 1 => some d
  else some depth

namespace Expander

open Eng

/-! ## Raw texts -/

/-- Reads tokens up to the brace that closes an open one. -/
def scanBalanced (x : Expander) : Eng TokenList :=
  iterate (fun (depth, seen) => do
    let t ← expect (← token?) .unterminatedGroup []
    match braceDepth? depth t with
    | none => return .done seen.reverse
    | some depth => return .again (depth, t :: seen)) x.fuel (0, ([] : TokenList))

/-- Reads a balanced text with its opening brace. -/
def scanTokens (x : Expander) : Eng TokenList := do
  let t ← expect (← token?) .missingLeftBrace []
  if t.hasCat .beginGroup then x.scanBalanced
  else
    push [t]
    failAt .missingLeftBrace t []

/-- Reads an opening brace, or something that means one, with spaces and \relax
    in front. -/
def scanLeftBrace (x : Expander) : Eng Unit := do
  let t ← expect (← x.nextNonRelax?) .missingLeftBrace []
  unless t.hasCat .beginGroup do
    match ← meaning? t with
    | some (.charToken b) =>
      unless b.hasCat .beginGroup do
        push [t]
        failAt .missingLeftBrace t []
    | _ =>
      push [t]
      failAt .missingLeftBrace t []

/-! ## Expanded texts -/

/-- Reads what follows \the. -/
def theTokens (x : Expander) : Eng TokenList := do
  let t ← expect (← x.next?) .missingNumber []
  match ← quantity? t with
  | some (m, _) => return (← (← x.resolve m).read).tokens
  | none =>
    let m ← if (← isFrozen) || !t.isCommand then pure none else meaning? t
    match m with
    | some (.font f) => return [.cs f.id]
    | some (.assigner .font) => return [.cs (← env).font.id]
    | _ =>
      push [t]
      failAt .cantUse t ["after \\the"]

/-- What an expanded text makes of a token: tokens that are final, an expansion,
    or the token itself. -/
inductive TextItem where
  | final (ts : TokenList)
  | expanded
  | plain

/-- Expands a token inside of an expanded text.  What \the gives is final, and
    protected macros stay. -/
def expandItem (x : Expander) (t : Token) : Eng TextItem := do
  if (← isFrozen) || !t.isCommand then return .plain
  match ← meaning? t with
  -- What \the gives is not expanded again.
  | some (.expandable .the) => return .final (← x.theTokens)
  | some (.defined m) =>
    if m.isProtected then return .plain
    x.expand (.defined m) t
    return .expanded
  | some m =>
    if m.isExpandable then
      x.expand m t
      return .expanded
    else return .plain
  | none => return .plain

/-- Reads tokens up to the brace that closes an open one, expanding them. -/
def expandBalanced (x : Expander) : Eng TokenList :=
  iterate (fun (depth, seen) => do
    let t ← expect (← token?) .unterminatedGroup []
    match ← x.expandItem t with
    | .final ts => return .again (depth, ts.reverse ++ seen)
    | .expanded => return .again (depth, seen)
    | .plain =>
      match braceDepth? depth t with
      | none => return .done seen.reverse
      | some depth => return .again (depth, t :: seen)) x.fuel (0, ([] : TokenList))

/-- Reads a balanced text with its opening brace, expanding it. -/
def scanGeneralText (x : Expander) : Eng TokenList := do
  x.scanLeftBrace
  x.expandBalanced

/-! ## Values -/

/-- Reads a token list value: a token list quantity, or a balanced text. -/
def scanToksValue (x : Expander) : Eng TokenList := do
  let t ← expect (← x.nextNonRelax?) .missingLeftBrace []
  match ← quantity? t with
  | some (m, .toks) =>
    match ← (← x.resolve m).read with
    | .toks ts => return ts
    | _ => return []
  | _ =>
    push [t]
    x.scanLeftBrace
    x.scanBalanced

/-- Reads a value of the given type. -/
def scanValue (x : Expander) : ValueKind → Eng Value
  | .int => .int <$> x.scanInteger
  | .dimen => .dimen <$> x.scanDimen
  | .glue => .glue <$> x.scanGlue
  | .toks => .toks <$> x.scanToksValue

/-! ## Names -/

/-- Reads a control sequence or active character that is to be defined. -/
def scanDefinedToken (x : Expander) : Eng Token :=
  iterate (fun _ => do
    let t ← expect (← token?) .missingControlSequence []
    if t.hasCat .space then return .again ()
    else if !t.isCommand || t = .frozenRelax then
      push [t]
      failAt .missingControlSequence t []
    else return .done t) x.fuel ()

/-- Reads a file name: a text in braces, or characters up to a space or a token
    that is no character. -/
def scanFileName (x : Expander) : Eng String := do
  let t ← expect (← x.nextNonSpace?) .fileNotFound []
  if t.hasCat .beginGroup then return TokenList.plain none (← x.expandBalanced)
  iterate (fun (t, name) => do
    if !t.isChar || t.hasCat .space || (← isFrozen) then
      unless t.hasCat .space do push [t]
      return .done (CharCode.listText name.reverse)
    else
      match ← x.next? with
      | some t' => return .again (t', t.code :: name)
      | none => return .done (CharCode.listText (t.code :: name).reverse))
    x.fuel (t, ([] : List CharCode))

/-- Reads the characters of a name up to \endcsname. -/
def scanCsname (x : Expander) : Eng String :=
  iterate (fun name => do
    let t ← expect (← x.next?) .missingEndcsname []
    if t.isCommand then
      if !(← isFrozen) && (← meaning? t) == some (.command .endcsname) then
        return .done (CharCode.listText name.reverse)
      else
        push [t]
        failAt .missingEndcsname t []
    else return .again (t.code :: name)) x.fuel ([] : List CharCode)

end Expander

end TexEngine
