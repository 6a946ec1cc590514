/-
  TexEngine.Engine.Arguments

  Macro calls: the arguments are read as the pattern of the macro says, and the
  call is replaced by the body with the arguments put in.
-/
import TexEngine.Engine.Scan.Tokens

namespace TexEngine

/-- The brace depth behind every token of a list stays positive up to the last
    token; `depth` braces are open. -/
def staysOpen (depth : Int) : TokenList → Bool
  | [] => true
  | t :: ts =>
    if t.hasCat .beginGroup then staysOpen (depth + 1) ts
    else if t.hasCat .endGroup then !(depth == 1 && !ts.isEmpty) && staysOpen (depth - 1) ts
    else staysOpen depth ts

/-- The list is one group: braces around a list in which they stay open. -/
def isSingleGroup (ts : TokenList) : Bool :=
  ts.length ≥ 2 && (ts.head?.any (·.hasCat .beginGroup)) &&
    (ts.getLast?.any (·.hasCat .endGroup)) && staysOpen 0 ts

/-- A list that is one group loses its braces. -/
def stripGroup (ts : TokenList) : TokenList :=
  if isSingleGroup ts then (ts.drop 1).dropLast else ts

namespace MacroDef

open Eng

/-! ## Arguments -/

/-- Fails if a token cannot be part of an argument: the end of a paragraph, if
    the macro is not long, or an outer macro. -/
def checkArgument (d : MacroDef) (call t : Token) : Eng Unit := do
  if !t.isCommand then return
  if !d.isLong && t.isCs && t.name == "par" then
    push [t]
    failAt .runawayArgument call ["paragraph ended before", call.text, "was complete"]
  match ← meaning? t with
  | some (.defined o) =>
    if o.isOuter then
      push [t]
      failAt .outerInArgument t ["while scanning use of", call.text]
  | _ => pure ()

/-- Reads the rest of an argument in braces, without the closing one. -/
def groupArgument (fuel : Nat) (d : MacroDef) (call : Token) : Eng TokenList :=
  iterate (fun (depth, seen) => do
    let t ← expect (← token?) .runawayArgument [call.text]
    d.checkArgument call t
    match braceDepth? depth t with
    | none => return .done seen.reverse
    | some depth => return .again (depth, t :: seen)) fuel (0, ([] : TokenList))

/-- Reads an argument without delimiters: one token or one group, with spaces in
    front. -/
def undelimitedArgument (fuel : Nat) (d : MacroDef) (call : Token) : Eng TokenList := do
  let t ← iterate (fun _ => do
    let t ← expect (← token?) .runawayArgument [call.text]
    return if t.hasCat .space then .again () else .done t) fuel ()
  d.checkArgument call t
  if t.hasCat .beginGroup then groupArgument fuel d call
  else if t.hasCat .endGroup then failAt .extraRightBrace t [call.text]
  else return [t]

/-- What has been read of a delimited argument: the tokens, latest first, the
    number of open braces, and the number of tokens since a brace was closed
    last. -/
structure Delimited where
  seen : TokenList := []
  depth : Nat := 0
  since : Nat := 0

/-- Reads an argument up to its delimiters, which have to stand outside of
    braces. -/
def delimitedArgument (fuel : Nat) (d : MacroDef) (call : Token) (delims : TokenList) :
    Eng TokenList := do
  let reversed := delims.reverse
  let arg ← iterate (fun (a : Delimited) => do
    let t ← expect (← token?) .runawayArgument [call.text]
    d.checkArgument call t
    let seen := t :: a.seen
    let since := a.since + 1
    if a.depth = 0 ∧ delims.length ≤ since ∧ seen.take delims.length = reversed then
      return .done (seen.drop delims.length).reverse
    match braceDepth? a.depth t with
    | none => failAt .extraRightBrace t [call.text]
    | some depth =>
      -- Behind the brace that ends a group, the delimiters have to begin anew.
      let since := if t.hasCat .endGroup && depth = 0 then 0 else since
      return .again { seen, depth, since }) fuel {}
  return stripGroup arg

/-- Reads the arguments of a call as the pattern says. -/
def readArguments (fuel : Nat) (d : MacroDef) (call : Token) : TokenList → Eng (List TokenList)
  | [] => return []
  | .param _ :: rest => do
    let delims := rest.takeWhile (!·.isParam)
    let arg ←
      if delims.isEmpty then undelimitedArgument fuel d call
      else delimitedArgument fuel d call delims
    return arg :: (← readArguments fuel d call (rest.drop delims.length))
  | p :: rest => do
    let t ← expect (← token?) .runawayArgument [call.text]
    if t = p then readArguments fuel d call rest
    else
      push [t]
      failAt .patternMismatch t [call.text]
termination_by pattern => pattern.length
decreasing_by
  all_goals
    simp only [List.length_drop, List.length_cons]
    omega

/-! ## Calls -/

/-- Reports the arguments of a call. -/
def traceArguments (esc : Option CharCode) (n : Nat) : List TokenList → Eng Unit
  | [] => pure ()
  | arg :: args => do
    trace .info .engine fun _ => "#" ++ toString n ++ "<-" ++ TokenList.format esc arg
    traceArguments esc (n + 1) args

/-- Replaces a call by the body of the macro. -/
def call (fuel : Nat) (d : MacroDef) (t : Token) : Eng Unit := do
  let args ← readArguments fuel d t d.pattern
  let env ← env
  if env.traces "tracingmacros" then
    let esc := env.escapeChar
    trace .info .engine fun _ =>
      t.format esc ++ TokenList.format esc d.pattern ++ "->" ++ TokenList.format esc d.body
    traceArguments esc 1 args
  push (substitute args d.body)

end MacroDef

end TexEngine
