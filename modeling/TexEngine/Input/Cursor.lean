/-
  TexEngine.Input.Cursor

  The lexer for one line.  A cursor holds the line, as a list of character codes,
  and a position in it.  Before a code is classified, ^^ notation at the position
  is replaced by the code it denotes, as often as possible; the line itself is
  changed, and it becomes shorter.  Three states decide what blanks and line ends
  mean.

  The main facts are that replacing ^^ notation never makes a line longer and
  leaves the position inside of it, and that every token moves the position; they
  make the lexer total, and they bound all its accesses to the line.
-/
import TexEngine.Token.Basic

namespace TexEngine

/-- What the lexer needs to know: the categories of characters, and the
    character that is appended to every line, if any.  It is asked for the latter
    only when a line begins. -/
structure Lexicon where
  catcode : CharCode → Catcode
  endLineChar : Unit → Option CharCode

/-- Where in a line the lexer is: at its beginning, in the middle, or behind
    something that swallows blanks. -/
inductive LineState where
  | newLine
  | midLine
  | skipBlanks
  deriving DecidableEq, Repr, Inhabited

/-- A line and the position of the code that is read next. -/
structure Cursor where
  line : List CharCode := []
  pos : Nat := 0
  state : LineState := .newLine
  deriving DecidableEq, Repr, Inhabited

/-- What the lexer finds: a token, or a character that is not allowed. -/
inductive Lexeme where
  | token (t : Token)
  | invalid (c : CharCode)
  deriving DecidableEq, Repr, Inhabited

/-! ## The ^^ notation -/

namespace Hat

/-- The code is one of `0`, ..., `9`, `a`, ..., `f`. -/
def isHex (c : CharCode) : Bool :=
  (48 ≤ c && c ≤ 57) || (97 ≤ c && c ≤ 102)

/-- The value of a hexadecimal digit. -/
def hexValue (c : CharCode) : Int :=
  if c ≤ 57 then c - 48 else c - 87

/-- The code that two hexadecimal digits give. -/
def hexPair? (x : CharCode) (y? : Option CharCode) : Option CharCode :=
  y?.bind fun y => if isHex x && isHex y then some (hexValue x * 16 + hexValue y) else none

/-- The code that lies 64 away, for codes below 128. -/
def flip (c : CharCode) : CharCode :=
  if c % 128 < 64 then c + 64 else c - 64

end Hat

namespace Cursor

/-- The codes that are not read yet. -/
def rest (cur : Cursor) : List CharCode :=
  cur.line.drop cur.pos

/-! ### Rewriting the line -/

/-- Puts one code in place of the next `n` ones: it is written over the last of
    them, and what stands there and behind it is moved to the position. -/
def replace (cur : Cursor) (n : Nat) (c : CharCode) : Cursor :=
  let line := cur.line.set (cur.pos + n - 1) c
  { cur with line := line.take cur.pos ++ line.drop (cur.pos + n - 1) }

theorem length_replace (cur : Cursor) (n : Nat) (c : CharCode) (h : cur.pos ≤ cur.line.length) :
    (cur.replace n c).line.length = cur.pos + (cur.line.length - (cur.pos + n - 1)) := by
  simp only [replace, List.length_append, List.length_take, List.length_drop, List.length_set]
  omega

/-- Replaces ^^ notation at the position: two equal superscript characters followed
    by two hexadecimal digits, or by a code below 128. -/
def reduce (cat : CharCode → Catcode) (cur : Cursor) : Cursor :=
  if h : cur.pos + 2 < cur.line.length then
    have hfirst : cur.pos < cur.line.length := Nat.lt_of_add_right_lt h
    have hsecond : cur.pos + 1 < cur.line.length := Nat.lt_of_succ_lt h
    let c := cur.line[cur.pos]
    if cat c ≠ .superscript ∨ cur.line[cur.pos + 1] ≠ c then cur
    else
      let x := cur.line[cur.pos + 2]
      match Hat.hexPair? x cur.line[cur.pos + 3]? with
      | some v => reduce cat (cur.replace 4 v)
      | none => if x < 128 then reduce cat (cur.replace 3 (Hat.flip x)) else cur
  else cur
termination_by cur.line.length
decreasing_by
  all_goals
    rw [length_replace _ _ _ (by omega)]
    omega

/-- Replacing ^^ notation leaves the position and the state alone, makes no line
    longer, and does not take away the code at the position. -/
theorem reduce_spec (cat : CharCode → Catcode) (cur : Cursor) :
    (cur.reduce cat).pos = cur.pos ∧ (cur.reduce cat).state = cur.state ∧
      (cur.reduce cat).line.length ≤ cur.line.length ∧
      (cur.pos < cur.line.length → cur.pos < (cur.reduce cat).line.length) := by
  fun_induction reduce cat cur with
  | case1 cur h hfirst hsecond c hc => exact ⟨rfl, rfl, Nat.le_refl _, id⟩
  | case2 cur h hfirst hsecond c hc x v hv ih =>
    have hlength := length_replace cur 4 v (by omega)
    -- There is a second digit.
    have hfour : cur.pos + 3 < cur.line.length := Nat.lt_of_not_le fun hshort => by
      rw [List.getElem?_eq_none hshort] at hv
      contradiction
    obtain ⟨hpos, hstate, hle, hlt⟩ := ih
    refine ⟨hpos, hstate, by omega, fun _ => hlt ?_⟩
    show cur.pos < (cur.replace 4 v).line.length
    omega
  | case3 cur h hfirst hsecond c hc x hv hx ih =>
    have hlength := length_replace cur 3 (Hat.flip x) (by omega)
    obtain ⟨hpos, hstate, hle, hlt⟩ := ih
    refine ⟨hpos, hstate, by omega, fun _ => hlt ?_⟩
    show cur.pos < (cur.replace 3 (Hat.flip x)).line.length
    omega
  | case4 cur h hfirst hsecond c hc x hv hx => exact ⟨rfl, rfl, Nat.le_refl _, id⟩
  | case5 cur h => exact ⟨rfl, rfl, Nat.le_refl _, id⟩

@[simp] theorem pos_reduce (cat : CharCode → Catcode) (cur : Cursor) :
    (cur.reduce cat).pos = cur.pos :=
  (reduce_spec cat cur).1

@[simp] theorem state_reduce (cat : CharCode → Catcode) (cur : Cursor) :
    (cur.reduce cat).state = cur.state :=
  (reduce_spec cat cur).2.1

theorem length_reduce_le (cat : CharCode → Catcode) (cur : Cursor) :
    (cur.reduce cat).line.length ≤ cur.line.length :=
  (reduce_spec cat cur).2.2.1

theorem pos_lt_length_reduce (cat : CharCode → Catcode) {cur : Cursor}
    (h : cur.pos < cur.line.length) : (cur.reduce cat).pos < (cur.reduce cat).line.length := by
  rw [pos_reduce]
  exact (reduce_spec cat cur).2.2.2 h

/-! ### Reading a line -/

/-- Starts a line: blanks at its end are dropped, and the end-of-line character
    is appended. -/
def ofLine (endLineChar : Option CharCode) (line : List Char) : Cursor :=
  let codes := (line.reverse.dropWhile (· == ' ')).reverse.map CharCode.ofChar
  { line := codes ++ endLineChar.toList }

/-- Moves to the end of the line. -/
def finish (cur : Cursor) : Cursor :=
  { cur with pos := cur.line.length }

/-- Moves behind the code at the position. -/
def advance (cur : Cursor) : Cursor :=
  { cur with pos := cur.pos + 1 }

/-- Moves behind the letters at the position. -/
def skipLetters (cat : CharCode → Catcode) (cur : Cursor) : Cursor :=
  if h : cur.pos < cur.line.length then
    let next := cur.reduce cat
    have hnext : next.pos < next.line.length := pos_lt_length_reduce cat h
    if cat next.line[next.pos] = .letter then
      skipLetters cat next.advance
    else next
  else cur
termination_by cur.line.length - cur.pos
decreasing_by
  have := length_reduce_le cat cur
  simp only [advance, pos_reduce]
  omega

/-- Reads the name of a control sequence, behind its escape character. -/
def controlSequence (cat : CharCode → Catcode) (cur : Cursor) : Token × Cursor :=
  if h : cur.pos < cur.line.length then
    let next := cur.reduce cat
    have hnext : next.pos < next.line.length := pos_lt_length_reduce cat h
    let c := next.line[next.pos]
    if cat c = .letter then
      let last := next.skipLetters cat
      (.cs (CharCode.listText (last.line.extract next.pos last.pos)),
       { last with state := .skipBlanks })
    else
      (.cs c.text,
       { next.advance with state := if cat c = .space then .skipBlanks else .midLine })
  else (.cs "", { cur with state := .skipBlanks })

/-- Reads the next lexeme of the line; there is none when only characters that
    give no token are left. -/
def next? (cat : CharCode → Catcode) (cur : Cursor) : Option Lexeme × Cursor :=
  if h : cur.pos < cur.line.length then
    let next := cur.reduce cat
    have hnext : next.pos < next.line.length := pos_lt_length_reduce cat h
    let c := next.line[next.pos]
    let after := next.advance
    match cat c with
    | .escape =>
      let (t, cur) := after.controlSequence cat
      (some (.token t), cur)
    | .endOfLine =>
      -- Whatever follows on the line is dropped.
      match cur.state with
      | .newLine => (some (.token (.cs "par")), after.finish)
      | .midLine => (some (.token .space), after.finish)
      | .skipBlanks => (none, after.finish)
    | .space =>
      if cur.state = .midLine then (some (.token .space), { after with state := .skipBlanks })
      else next? cat after
    | .ignored => next? cat after
    | .comment => (none, after.finish)
    | .invalid => (some (.invalid c), after)
    | k => (some (.token (.char c k)), { after with state := .midLine })
  else (none, cur)
termination_by cur.line.length - cur.pos
decreasing_by
  all_goals
    have := length_reduce_le cat cur
    show cur.line.length - cur.pos > (cur.reduce cat).line.length - ((cur.reduce cat).pos + 1)
    rw [pos_reduce]
    omega

end Cursor

end TexEngine
