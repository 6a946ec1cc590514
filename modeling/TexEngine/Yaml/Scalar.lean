/-
  TexEngine.Yaml.Scalar

  Scalars of a settings file.  A scalar that is not quoted can denote a null
  value, a truth value, an integer or a real number; the place it is used in
  decides which of these are acceptable.  A tag demands one of them.
-/
import TexEngine.Decimal.Binary64
import TexEngine.Text.Base64
import TexEngine.Text.Numeral
import TexEngine.Text.Utf8

namespace TexEngine.Yaml

/-- A scalar as it was written, without quotes, and its tag. -/
structure Scalar where
  text : String
  quoted : Bool := false
  tag : Option String := none
  deriving DecidableEq, Repr, Inhabited

/-- What a scalar denotes; `belowAll` is minus infinity and `aboveAll` stands for
    numbers that exceed all others or are not comparable. -/
inductive Sense where
  | null
  | bool (value : Bool)
  | int (value : Int)
  | real (value : Binary64)
  | belowAll
  | aboveAll
  | text (value : String)
  deriving DecidableEq, Repr, Inhabited

/-! ## Real numbers -/

/-- Splits off leading decimal digits. -/
def digits (cs : List Char) : List Char × List Char :=
  (cs.takeWhile Char.isDigit, cs.dropWhile Char.isDigit)

/-- The exponent at the end of a number: nothing, or "e" with a signed number. -/
def exponent? (cs : List Char) : Option Int :=
  match cs with
  | [] => some 0
  | c :: rest =>
    if c == 'e' || c == 'E' then
      let (negative, ds) := Text.Numeral.sign rest
      if ds.isEmpty || !ds.all Char.isDigit then none
      else
        let n : Int := (Text.Numeral.value? 10 ds).getD 0
        some (if negative then -n else n)
    else none

/-- A decimal number with an optional fraction and exponent; one of the two parts
    has to have digits. -/
def real? (cs : List Char) : Option Binary64 := do
  let (negative, cs) := Text.Numeral.sign cs
  let (int, cs) := digits cs
  let (frac, cs) :=
    match cs with
    | '.' :: rest => digits rest
    | _ => ([], cs)
  if int.isEmpty && frac.isEmpty then none
  let e ← exponent? cs
  let n ← Text.Numeral.value? 10 (int ++ frac)
  Binary64.ofDecimal? negative n (e - frac.length)

/-- A number that begins with a point, in which underscores may separate digits. -/
def fraction? (cs : List Char) : Option Binary64 :=
  if Text.Numeral.separatorsFit Char.isDigit false cs then real? (cs.filter (· != '_')) else none

/-! ## Senses -/

/-- Words with a fixed meaning. -/
def keyword? (s : String) : Option Sense :=
  if ["", "~", "null", "Null", "NULL"].contains s then some .null
  else if ["true", "True", "TRUE"].contains s then some (.bool true)
  else if ["false", "False", "FALSE"].contains s then some (.bool false)
  else if ["-.inf", "-.Inf", "-.INF"].contains s then some .belowAll
  else if [".nan", ".NaN", ".NAN"].contains s then some .aboveAll
  else if [".inf", ".Inf", ".INF", "+.inf", "+.Inf", "+.INF"].contains s then some .aboveAll
  else none

/-- The binary or octal integer whose sign stands behind the letter of its base. -/
def innerSigned? (cs : List Char) : Option Int :=
  let read (base : Nat) (rest : List Char) : Option Int :=
    let (negative, ds) := Text.Numeral.sign rest
    if ds.isEmpty then none
    else (Text.Numeral.value? base ds).map (Text.Numeral.signed negative)
  let n? :=
    match cs with
    | '0' :: 'b' :: rest => read 2 rest
    | '0' :: 'o' :: rest => read 8 rest
    | _ => none
  n?.filter fun n => Text.Numeral.wordMin ≤ n ∧ n ≤ Text.Numeral.wordMax

/-- The number that a text starting with a sign or a digit denotes; underscores
    are ignored.  Integers that need more than 64 bits count as real numbers. -/
def number? (cs : List Char) : Option Sense :=
  let cs := cs.filter (· != '_')
  match Text.Numeral.literal? cs with
  | some n =>
    if Text.Numeral.wordMin ≤ n ∧ n ≤ Text.Numeral.unsignedMax then some (.int n)
    else (real? cs).map .real
  | none => ((real? cs).map Sense.real).or ((innerSigned? cs).map Sense.int)

/-- What a text denotes that is not quoted. -/
def Sense.ofText (s : String) : Sense :=
  match keyword? s with
  | some d => d
  | none =>
    match s.toList with
    | [] => .null
    | c :: cs =>
      if c == '.' then ((fraction? (c :: cs)).map Sense.real).getD (.text s)
      else if c.isDigit || c == '+' || c == '-' then (number? (c :: cs)).getD (.text s)
      else .text s

/-- The tag of a sense. -/
def Sense.tag : Sense → String
  | null => "!!null"
  | bool _ => "!!bool"
  | int _ => "!!int"
  | real _ => "!!float"
  | belowAll => "!!float"
  | aboveAll => "!!float"
  | text _ => "!!str"

/-- The sense, if it is of the type that a tag demands.  An integer is also a
    real number. -/
def Sense.as? (tag : String) (d : Sense) : Option Sense :=
  if d.tag == tag then some d
  else
    match d with
    | int n => if tag == "!!float" then (Binary64.ofDecimal? (n < 0) n.natAbs 0).map real else none
    | _ => none

namespace Scalar

/-- The tags that demand a type. -/
def typeTags : List String :=
  ["!!null", "!!bool", "!!int", "!!float", "!!timestamp"]

/-- What a scalar denotes, unless its tag contradicts its text.  With a tag it does
    not matter whether it is quoted; a tag that demands no type makes it a text. -/
def sense? (s : Scalar) : Option Sense :=
  match s.tag with
  | none => some (if s.quoted then .text s.text else Sense.ofText s.text)
  | some tag =>
    if typeTags.contains tag then (Sense.ofText s.text).as? tag
    else if tag == "!!binary" then
      (Text.Base64.decode? s.text).map fun bytes => .text (Text.Utf8.decode bytes)
    else some (.text s.text)

/-- The scalar as a text: what it was written as, unless it is an encoded text. -/
def textAs (s : Scalar) : Sense → String
  | .text t => t
  | _ => s.text

/-- The scalar denotes nothing. -/
def isNull (s : Scalar) : Bool :=
  s.sense? == some .null

/-- The scalar is the key for entries that are taken from other mappings. -/
def isMerge (s : Scalar) : Bool :=
  s.text == "<<" && (s.tag == some "!!merge" || (s.tag.isNone && !s.quoted))

end Scalar

/-- The sense as a 64-bit integer; real numbers are truncated, and those below
    the range become the smallest integer. -/
def Sense.int64? : Sense → Option Int64
  | int n => if n ≤ Text.Numeral.wordMax then some (Int64.ofInt n) else none
  | real x =>
    let n := x.whole
    if n ≤ Text.Numeral.wordMax + 1 then
      some (Int64.ofInt (if n < Text.Numeral.wordMin then Text.Numeral.wordMin else n))
    else none
  | belowAll => some Int64.minValue
  | _ => none

/-- The sense as a truth value; some words are understood although they denote
    texts. -/
def Sense.bool? : Sense → Option Bool
  | bool b => some b
  | text t =>
    if ["y", "Y", "yes", "Yes", "YES", "on", "On", "ON"].contains t then some true
    else if ["n", "N", "no", "No", "NO", "off", "Off", "OFF"].contains t then some false
    else none
  | _ => none

end TexEngine.Yaml
