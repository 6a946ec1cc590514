/-
  TexEngine.Engine.Scan.Dimen

  Lengths and glue: a number, possibly with a decimal fraction, and a unit.
  Units are physical, relative to the current font, or quantities; the stretch
  and shrink of glue can also be infinite.
-/
import TexEngine.Engine.Scan.Integer

namespace TexEngine

/-- The token is a decimal point or comma. -/
def isDecimalPoint (t : Token) : Bool :=
  t.isOther '.' || t.isOther ','

/-- A decimal number can begin with the token. -/
def startsDecimal (t : Token) : Bool :=
  isDecimalPoint t || (digit? t 10).isSome

namespace Expander

open Eng

/-! ## Decimal numbers -/

/-- What has been read of a decimal number; `digits` are those of the fraction,
    latest first, and the point has been read if `inFraction`. -/
structure DecimalPart where
  integer : Int64 := 0
  digits : List Int64 := []
  inFraction : Bool := false

/-- Reads a decimal number that begins with `t`: its integer part, and its
    fraction in units of 1/65536.  A space behind the number belongs to it. -/
def scanDecimal (x : Expander) (t : Token) : Eng (Int64 × Int64) := do
  let p ← iterate (fun (p, t) => do
    let p? : Option DecimalPart ←
      match digit? t 10, ← isFrozen with
      | some d, false =>
        if p.inFraction then pure (some { p with digits := d :: p.digits })
        else
          observe (Word.mulFits p.integer 10 && Word.addFits (p.integer * 10) d)
          let integer := p.integer * 10 + d
          -- The limit is checked at each digit, so the words never overflow.
          if integer > Count.max then fail .numberTooBig []
          else pure (some { p with integer })
      | _, _ =>
        if !p.inFraction && isDecimalPoint t then pure (some { p with inFraction := true })
        else pure none
    match p? with
    | none =>
      -- One space behind the digits belongs to the number.
      unless t.hasCat .space do push [t]
      return .done p
    | some p =>
      match ← x.next? with
      | some t => return .again (p, t)
      | none => return .done p) x.fuel (({} : DecimalPart), t)
  observe (Dimen.roundFits p.digits.reverse)
  return (p.integer, Dimen.roundDecimals p.digits.reverse)

/-! ## Units -/

/-- Reads a unit that is a quantity, or one of the units em and ex; gives the
    length of `integer + frac / 65536` of it, if there is such a unit. -/
def scanInternalUnit (x : Expander) (integer frac : Int64) : Eng (Option Dimen) := do
  match ← x.nextNonSpace? with
  | none => return none
  | some t =>
    let q ← quantity? t
    match q.filter (·.2 ≠ .toks) with
    | some (m, _) =>
      let unit := (← (← x.resolve m).read).toInt
      observe (Dimen.fractionFits integer frac unit)
      return some (← arith (Dimen.fraction integer frac unit))
    | none =>
      push [t]
      if ← x.scanKeyword "em" then return some (← fontUnit 6)
      else if ← x.scanKeyword "ex" then return some (← fontUnit 5)
      else return none
where
  /-- A multiple of a parameter of the current font. -/
  fontUnit (n : Int) : Eng Dimen := do
    let env ← env
    let unit := env.fonts.param env.font n
    observe (Dimen.fractionFits integer frac unit)
    arith (Dimen.fraction integer frac unit)

/-- Reads one of the physical units in `units`, if there is one. -/
def scanPhysicalUnit (x : Expander) : List Dimen.PhysicalUnit → Eng (Option Dimen.PhysicalUnit)
  | [] => return none
  | u :: us => do
    if ← x.scanKeyword u.keyword then return some u else x.scanPhysicalUnit us

/-- Reads a physical unit. -/
def scanTrueUnit (x : Expander) (integer frac : Int64) : Eng Dimen := do
  let (integer, frac) ←
    if ← x.scanKeyword "true" then
      -- The magnification that the unit is spared is made up for in advance.
      let mag := (← env).count "mag"
      observe (Dimen.magnifyFits integer frac mag)
      arith (Dimen.magnify integer frac mag)
    else pure (integer, frac)
  match ← x.scanPhysicalUnit Dimen.PhysicalUnit.all with
  | some u =>
    observe (Dimen.scaleUnitFits integer frac u)
    arith (Dimen.scaleUnit integer frac u)
  | none =>
    if ← x.scanKeyword "sp" then
      -- There are no fractions of a scaled point; the digits behind the point are ignored.
      if integer > Dimen.max then fail .dimenTooLarge [] else return integer
    else fail .illegalUnit []

/-- Reads up to `n` letters l, and counts them. -/
def scanOrder (x : Expander) : Nat → Eng Nat
  | 0 => return 0
  | n + 1 => do
    if ← x.scanKeyword "l" then return (← x.scanOrder n) + 1 else return 0

/-- Reads the unit fil, fill or filll. -/
def scanInfiniteUnit (x : Expander) (integer frac : Int64) : Eng (Option GlueComponent) := do
  if ← x.scanKeyword "fil" then
    let order := (← x.scanOrder 2) + 1
    if integer ≥ 0x4000 then fail .dimenTooLarge []
    else
      observe (Dimen.partsFits integer frac)
      return some ⟨integer * Dimen.unity + frac, order⟩
  else return none

/-- Reads the unit of `integer + frac / 65536`; the result is negated if `neg`. -/
def scanUnits (x : Expander) (neg : Bool) (integer frac : Int64) (infinite : Bool) :
    Eng GlueComponent := do
  let inf ← if infinite then x.scanInfiniteUnit integer frac else pure none
  let c ←
    match inf with
    | some c => pure c
    | none =>
      match ← x.scanInternalUnit integer frac with
      | some d => pure ⟨d, 0⟩
      | none => do pure ⟨← x.scanTrueUnit integer frac, 0⟩
  x.skipOptionalSpace
  -- The sign is kept apart until now, the unit is applied to the amount.
  observe (!neg || Word.negFits c.value)
  let c := if neg then { c with value := -c.value } else c
  arith (Dimen.check c.value)
  return c

/-! ## Lengths -/

/-- Reads a length that begins with `t`; with `infinite`, infinite units are
    allowed. -/
def scanDimenFrom (x : Expander) (neg : Bool) (t : Token) (infinite : Bool) :
    Eng GlueComponent := do
  let units (integer frac : Int64) : Eng GlueComponent :=
    -- A quantity can be negative itself.
    if integer < 0 then do
      observe (Word.negFits integer)
      x.scanUnits (!neg) (-integer) frac infinite
    else x.scanUnits neg integer frac infinite
  match ← quantity? t with
  | some (m, _) =>
    match ← (← x.resolve m).read with
    | .int n => units n 0
    | .toks _ => failAt .missingNumber t []
    -- A length needs no unit behind it.
    | v =>
      observe (!neg || Word.negFits v.toInt)
      return ⟨if neg then -v.toInt else v.toInt, 0⟩
  | none =>
    if startsDecimal t then
      let (integer, frac) ← x.scanDecimal t
      units integer frac
    else units (← x.scanUnsigned t) 0

/-- Reads a length. -/
def scanDimen (x : Expander) : Eng Dimen := do
  let (neg, t) ← x.scanSigns
  return (← x.scanDimenFrom neg t false).value

/-! ## Glue -/

/-- Reads the stretch or shrink of a glue. -/
def scanComponent (x : Expander) : Eng GlueComponent := do
  let (neg, t) ← x.scanSigns
  return (← x.scanDimenFrom neg t true).normalize

/-- Reads a component that follows a keyword, if the keyword is there. -/
def scanOptionalComponent (x : Expander) (keyword : String) : Eng GlueComponent := do
  if ← x.scanKeyword keyword then x.scanComponent else return {}

/-- Reads a glue. -/
def scanGlue (x : Expander) : Eng Glue := do
  let (neg, t) ← x.scanSigns
  match ← quantity? t with
  | some (m, .glue) =>
    -- The glue of a register is complete; no other part of it is looked for.
    match ← (← x.resolve m).read with
    | .glue g =>
      observe (!neg || g.negateFits)
      return if neg then g.negate else g
    | _ => return {}
  | _ =>
    let width := (← x.scanDimenFrom neg t false).value
    let stretch ← x.scanOptionalComponent "plus"
    let shrink ← x.scanOptionalComponent "minus"
    return { width, stretch, shrink }

end Expander

end TexEngine
