/-
  TexEngine.Proofs.Input.Spelling

  Tokens that are written in a line and read again.  A character is written as it is, and a
  control sequence as its name behind an escape character, with a blank behind it.  Where the
  lexer swallows the blank, it gives the tokens back: that is so behind a word, and at the end
  of the line, where blanks do not count.  Behind a name that is one character and no letter,
  the blank is a token of its own.

  The line without its blank at the end is `TokenList.spelled`, and the lexer reads a spelled
  list token by token, whatever its state is.
-/
import TexEngine.Proofs.Env.Valuation
import TexEngine.Proofs.Input.LineLexer
import TexEngine.Proofs.Text.Lines

namespace TexEngine

/-! ## Characters and lines -/

namespace CharCode

@[simp] theorem toChar_ofChar (ch : Char) : (ofChar ch).toChar = ch := by
  have hscalar : (ofChar ch).IsScalar := by
    obtain h | h := ch.valid
    · exact .inl ⟨Int.natCast_nonneg _, Int.ofNat_lt.mpr h⟩
    · exact .inr ⟨Int.ofNat_lt.mpr h.1, Int.ofNat_lt.mpr h.2⟩
  exact Char.toNat_inj.mp (toNat_toChar hscalar)

theorem listText_map_ofChar (s : String) : listText (s.toList.map ofChar) = s := by
  simp [listText, Function.comp_def]

end CharCode

namespace Text

/-- A text without terminators is one line. -/
theorem lines_of_concat {s : String} {cs : List Char} {c : Char} (hs : s.toList = cs ++ [c])
    (hline : '\n' ∉ s.toList) (hc : c ≠ '\r') : lines s = [s.toList] := by
  have hreverse : s.toList.reverse = c :: cs.reverse := by
    rw [hs, List.reverse_append]
    rfl
  rw [lines, linesFrom_eq_of_not_mem hline, hreverse]
  show [(dropReturn (c :: cs.reverse)).reverse] = _
  rw [dropReturn_of_ne hc, ← hreverse, List.reverse_reverse]

end Text

section RightDrop

variable {α : Type} {p : α → Bool} {xs ys : List α}

theorem rdropWhile_append_of_ne_nil (h : ys.rdropWhile p ≠ []) :
    (xs ++ ys).rdropWhile p = xs ++ ys.rdropWhile p := by
  have hempty : (ys.reverse.dropWhile p).isEmpty = false := by
    rw [List.isEmpty_eq_false_iff]
    exact fun hnil => h (congrArg List.reverse hnil)
  unfold List.rdropWhile
  rw [List.reverse_append, List.dropWhile_append, hempty, if_neg Bool.false_ne_true,
    List.reverse_append, List.reverse_reverse]

theorem rdropWhile_of_forall_not (h : ∀ x ∈ xs, p x = false) : xs.rdropWhile p = xs :=
  List.rdropWhile_eq_self_iff.mpr fun hne =>
    Bool.not_eq_true _ ▸ h _ (List.getLast_mem hne)

end RightDrop

/-! ## The head of a line -/

namespace LineLexer

variable {cat : CharCode → Catcode} {c : CharCode} {cs rest : List CharCode}

theorem hat?_eq_none (h : ∀ c ∈ cs.head?, cat c ≠ .superscript) : hat? cat cs = none := by
  unfold hat?
  grind

theorem unhat_of_head (h : ∀ c ∈ cs.head?, cat c ≠ .superscript) : unhat cat cs = cs :=
  unhat_of_hat?_none (hat?_eq_none h)

theorem unhat_cons (h : cat c ≠ .superscript) (cs : List CharCode) :
    unhat cat (c :: cs) = c :: cs :=
  unhat_of_head fun d hd => by
    obtain rfl : c = d := Option.some.inj hd
    exact h

theorem lex_escape (hc : cat c = .escape) (state : LineState) (rest : List CharCode) :
    lex cat state (c :: rest) =
      .token (.cs (CharCode.listText (name cat rest).1)) ::
        lex cat (name cat rest).2.1 (name cat rest).2.2 := by
  rw [lex_of_unhat_cons (unhat_cons (by simp [hc]) rest), hc]

theorem lex_char {k : Catcode} (hk : k = .letter ∨ k = .other) (hc : cat c = k)
    (state : LineState) (rest : List CharCode) :
    lex cat state (c :: rest) = .token (.char c k) :: lex cat .midLine rest := by
  have hne : cat c ≠ .superscript := by
    rcases hk with rfl | rfl <;> simp [hc]
  rw [lex_of_unhat_cons (unhat_cons hne rest), hc]
  rcases hk with rfl | rfl <;> rfl

theorem lex_blank (hc : cat c = .space) (state : LineState) (rest : List CharCode) :
    lex cat state (c :: rest) =
      if state = .midLine then .token .space :: lex cat .skipBlanks rest
      else lex cat state rest := by
  rw [lex_of_unhat_cons (unhat_cons (by simp [hc]) rest), hc]

/-- A word ends in front of what is no letter. -/
theorem word_append {w : List CharCode} (hw : ∀ c ∈ w, cat c = .letter)
    (hrest : ∀ c ∈ rest.head?, cat c ≠ .letter ∧ cat c ≠ .superscript) :
    word cat (w ++ rest) = (w, rest) := by
  induction w with
  | nil =>
    rw [List.nil_append, word.eq_def, unhat_of_head fun c hc => (hrest c hc).2]
    cases rest with
    | nil => rfl
    | cons c rest => exact if_neg (hrest c rfl).1
  | cons c w ih =>
    rw [List.forall_mem_cons] at hw
    have hc : cat c ≠ .superscript := by simp [hw.1]
    rw [List.cons_append, word.eq_def, unhat_cons hc]
    simp only [hw.1, if_true, ih hw.2]
    rfl

/-- The name behind an escape character is the whole word. -/
theorem name_word {w : List CharCode} (hne : w ≠ []) (hw : ∀ c ∈ w, cat c = .letter)
    (hrest : ∀ c ∈ rest.head?, cat c ≠ .letter ∧ cat c ≠ .superscript) :
    name cat (w ++ rest) = (w, .skipBlanks, rest) := by
  cases w with
  | nil => contradiction
  | cons c w =>
    rw [List.forall_mem_cons] at hw
    have hc : cat c ≠ .superscript := by simp [hw.1]
    rw [List.cons_append, name, unhat_cons hc]
    dsimp only
    rw [if_pos hw.1, word_append hw.2 hrest]

/-- Or it is one character of category other, and then blanks are not skipped. -/
theorem name_symbol (hc : cat c = .other) (rest : List CharCode) :
    name cat (c :: rest) = ([c], .midLine, rest) := by
  rw [name, unhat_cons (by simp [hc])]
  simp [hc]

end LineLexer

/-! ## Tokens that are written -/

/-- A name that the lexer reads as a whole: a word, or one character of category other. -/
inductive LegibleName (cat : CharCode → Catcode) : List Char → Prop where
  | word {chs : List Char} (hne : chs ≠ []) (hcat : ∀ ch ∈ chs, cat (.ofChar ch) = .letter) :
      LegibleName cat chs
  | symbol {ch : Char} (hcat : cat (.ofChar ch) = .other) : LegibleName cat [ch]

namespace Token

/-- A letter or other character with its category, or a control sequence with a name that the
    lexer reads as a whole.  Nothing that is written for the token breaks a line or could be
    taken off its end. -/
inductive Legible (cat : CharCode → Catcode) : Token → Prop where
  | char {ch : Char} {k : Catcode} (hk : k = .letter ∨ k = .other) (hcat : cat (.ofChar ch) = k)
      (hline : ch ≠ '\n') (hend : ch ≠ '\r') : Legible cat (.char (.ofChar ch) k)
  | cs {n : String} (hname : LegibleName cat n.toList) (hline : '\n' ∉ n.toList) :
      Legible cat (.cs n)

/-- A control sequence that is named by a character of category other: behind it, the lexer
    does not swallow a blank. -/
def isSymbol (cat : CharCode → Catcode) (t : Token) : Bool :=
  t.isCs && t.name.toList.any fun ch => cat (.ofChar ch) = .other

/-- The characters that are written for a token, without the blank. -/
def spelled (esc : Char) (t : Token) : List Char :=
  (t.format (some (.ofChar esc))).toList

/-- What is written behind a token. -/
def blank (t : Token) : List Char :=
  if t.isCs then [' '] else []

end Token

namespace TokenList

/-- All that is written for a list of tokens. -/
def spelledOut (esc : Char) (ts : TokenList) : List Char :=
  ts.flatMap fun t => t.spelled esc ++ t.blank

/-- The line that is read for a list of tokens: behind the last one, the blank does not
    count. -/
def spelled (esc : Char) : TokenList → List Char
  | [] => []
  | [t] => t.spelled esc
  | t :: u :: ts => t.spelled esc ++ t.blank ++ spelled esc (u :: ts)

/-- The tokens that a list becomes when it is written and read again. -/
def rescanned (cat : CharCode → Catcode) : TokenList → TokenList
  | [] => []
  | [t] => [t]
  | t :: u :: ts => (if t.isSymbol cat then [t, .space] else [t]) ++ rescanned cat (u :: ts)

end TokenList

/-- The escape character begins control sequences and breaks no line, a blank is a blank, and
    nothing is added at the end of a line. -/
structure Lexicon.Spells (lexicon : Lexicon) (esc : Char) : Prop where
  escape : lexicon.catcode (.ofChar esc) = .escape
  line : esc ≠ '\n'
  blank : lexicon.catcode 32 = .space
  noEnd : lexicon.endLineChar () = none

section Spelling

open LineLexer

variable {cat : CharCode → Catcode} {esc : Char} {state : LineState}

namespace LegibleName

variable {chs : List Char}

theorem cat_of_mem (h : LegibleName cat chs) {ch : Char} (hch : ch ∈ chs) :
    cat (.ofChar ch) = .letter ∨ cat (.ofChar ch) = .other := by
  cases h with
  | word hne hcat => exact .inl (hcat ch hch)
  | symbol hcat =>
    rw [List.mem_singleton] at hch
    exact .inr (hch ▸ hcat)

/-- In front of what is no part of a name, the lexer reads the name as it is.  What it does
    with blanks behind the name depends on the category of its characters. -/
theorem name_eq (h : LegibleName cat chs) (rest : List CharCode)
    (hrest : ∀ c ∈ rest.head?, cat c ≠ .letter ∧ cat c ≠ .superscript) :
    name cat (chs.map .ofChar ++ rest) =
      (chs.map .ofChar,
        if chs.any fun ch => cat (.ofChar ch) = .other then .midLine else .skipBlanks, rest) := by
  cases h with
  | word hne hcat =>
    have hletters : (chs.any fun ch => decide (cat (.ofChar ch) = .other)) = false := by
      rw [List.any_eq_false]
      intro ch hch
      simp [hcat ch hch]
    rw [hletters, name_word (by simpa using hne) (List.forall_mem_map.mpr hcat) hrest]
    rfl
  | symbol hcat =>
    rw [List.map_singleton, List.singleton_append, name_symbol hcat]
    simp [hcat]

end LegibleName

namespace Token

theorem spelled_char (esc ch : Char) (k : Catcode) :
    (Token.char (.ofChar ch) k).spelled esc = [ch] := by
  simp [spelled, format, CharCode.text]

theorem blank_char (c : CharCode) (k : Catcode) : (Token.char c k).blank = [] := rfl

theorem blank_cs (n : String) : (Token.cs n).blank = [' '] := rfl

theorem spelled_cs (esc : Char) (n : String) : (Token.cs n).spelled esc = esc :: n.toList := by
  simp [spelled, format, escapeText, CharCode.text]

namespace Legible

variable {t : Token}

/-- The token is no brace. -/
theorem not_brace (h : t.Legible cat) :
    t.hasCat .beginGroup = false ∧ t.hasCat .endGroup = false := by
  cases h with
  | char hk => rcases hk with rfl | rfl <;> exact ⟨rfl, rfl⟩
  | cs => exact ⟨rfl, rfl⟩

theorem spelled_ne_nil (h : t.Legible cat) (esc : Char) : t.spelled esc ≠ [] := by
  cases h with
  | char =>
    rw [spelled_char]
    exact List.cons_ne_nil _ _
  | cs =>
    rw [spelled_cs]
    exact List.cons_ne_nil _ _

/-- No part of a token is a blank. -/
theorem ne_blank (h : t.Legible cat) (hesc : cat (.ofChar esc) = .escape)
    (hblank : cat 32 = .space) {ch : Char} (hch : ch ∈ t.spelled esc) : ch ≠ ' ' := by
  rintro rfl
  have hspace : cat (.ofChar ' ') = .space := hblank
  cases h with
  | @char c k hk hcat =>
    rw [spelled_char, List.mem_singleton] at hch
    rw [← hch, hspace] at hcat
    subst hcat
    simp at hk
  | cs hname =>
    rw [spelled_cs, List.mem_cons] at hch
    obtain rfl | hch := hch
    · rw [hspace] at hesc
      contradiction
    · have hcat := hname.cat_of_mem hch
      rw [hspace] at hcat
      simp at hcat

/-- What is written for a token breaks no line. -/
theorem not_mem_spelled (h : t.Legible cat) (hesc : esc ≠ '\n') :
    '\n' ∉ t.spelled esc ++ t.blank := by
  cases h with
  | char hk hcat hline =>
    rw [spelled_char, blank_char, List.append_nil, List.mem_singleton]
    exact hline.symm
  | cs hname hline =>
    rw [spelled_cs, blank_cs]
    simp [hesc.symm, hline]

/-- Something is written for a token, and nothing of it is taken off the end of a text. -/
theorem exists_concat (h : t.Legible cat) (esc : Char) :
    ∃ cs c, t.spelled esc ++ t.blank = cs ++ [c] ∧ c ≠ '\r' := by
  cases h with
  | char hk hcat hline hend =>
    rw [spelled_char, blank_char]
    exact ⟨[], _, rfl, hend⟩
  | cs => exact ⟨_, ' ', rfl, by decide⟩

/-- Whatever comes before, the lexer takes a token as it is written and the blank behind it;
    only behind a symbol, the blank is a token. -/
theorem lex_spelled_blank (h : t.Legible cat) (hesc : cat (.ofChar esc) = .escape)
    (hblank : cat 32 = .space) (state : LineState) (rest : List CharCode) :
    ∃ state', lex cat state ((t.spelled esc ++ t.blank).map .ofChar ++ rest) =
      (if t.isSymbol cat then [t, .space] else [t]).map .token ++ lex cat state' rest := by
  cases h with
  | char hk hcat =>
    rw [spelled_char, blank_char]
    exact ⟨.midLine, lex_char hk hcat state rest⟩
  | @cs n hname =>
    have hread := hname.name_eq (32 :: rest) fun c hc => by
      obtain rfl : 32 = c := Option.some.inj hc
      simp [hblank]
    have hcodes : ((Token.cs n).spelled esc ++ (Token.cs n).blank).map .ofChar ++ rest =
        .ofChar esc :: (n.toList.map .ofChar ++ 32 :: rest) := by
      rw [spelled_cs, blank_cs]
      simp [CharCode.ofChar]
    have hsymbol : (Token.cs n).isSymbol cat =
        n.toList.any fun ch => cat (.ofChar ch) = .other := rfl
    rw [hcodes, lex_escape hesc, hread, CharCode.listText_map_ofChar, hsymbol]
    refine ⟨.skipBlanks, ?_⟩
    dsimp only
    rw [lex_blank hblank]
    cases n.toList.any fun ch => decide (cat (.ofChar ch) = .other) <;> rfl

/-- At the end of the line, the lexer takes a token as it is written. -/
theorem lex_spelled (h : t.Legible cat) (hesc : cat (.ofChar esc) = .escape)
    (state : LineState) : lex cat state ((t.spelled esc).map .ofChar) = [.token t] := by
  cases h with
  | char hk hcat =>
    rw [spelled_char]
    exact (lex_char hk hcat state []).trans (congrArg _ (lex_nil _))
  | @cs n hname =>
    have hread := hname.name_eq [] fun c hc => nomatch hc
    rw [List.append_nil] at hread
    rw [spelled_cs, List.map_cons, lex_escape hesc, hread, lex_nil, CharCode.listText_map_ofChar]

end Legible

end Token

/-! ## Lists that are written -/

namespace TokenList

variable {ts : TokenList}

theorem spelled_ne_nil {t : Token} (ht : t.Legible cat) (ts : TokenList) :
    spelled esc (t :: ts) ≠ [] := by
  cases ts with
  | nil => exact ht.spelled_ne_nil esc
  | cons u ts =>
    unfold spelled
    simp [ht.spelled_ne_nil esc]

/-- Of what is written for a list, only the blank at the end does not count. -/
theorem rdropWhile_spelledOut (hesc : cat (.ofChar esc) = .escape) (hblank : cat 32 = .space)
    (hts : ∀ t ∈ ts, t.Legible cat) :
    (spelledOut esc ts).rdropWhile (· = ' ') = spelled esc ts := by
  induction ts using spelled.induct with
  | case1 => rfl
  | case2 t =>
    have ht : t.Legible cat := hts t List.mem_cons_self
    have hself : (t.spelled esc).rdropWhile (· = ' ') = t.spelled esc :=
      rdropWhile_of_forall_not fun ch hch => decide_eq_false (ht.ne_blank hesc hblank hch)
    rw [spelledOut, List.flatMap_singleton, spelled, Token.blank]
    cases t.isCs with
    | true => exact (List.rdropWhile_concat_pos _ _ _ (by simp)).trans hself
    | false => exact (congrArg _ (List.append_nil _)).trans hself
  | case3 t u ts ih =>
    rw [List.forall_mem_cons] at hts
    have hrest : (spelledOut esc (u :: ts)).rdropWhile (· = ' ') = spelled esc (u :: ts) :=
      ih hts.2
    have hne : (spelledOut esc (u :: ts)).rdropWhile (· = ' ') ≠ [] := by
      rw [hrest]
      exact spelled_ne_nil (hts.2 u List.mem_cons_self) ts
    rw [spelled, ← hrest, ← rdropWhile_append_of_ne_nil hne]
    rfl

/-- The lexer reads a line that is written for a list as `rescanned` says. -/
theorem lex_spelled (hesc : cat (.ofChar esc) = .escape) (hblank : cat 32 = .space)
    (hts : ∀ t ∈ ts, t.Legible cat) (state : LineState) :
    lex cat state ((spelled esc ts).map .ofChar) = (rescanned cat ts).map .token := by
  induction ts using spelled.induct generalizing state with
  | case1 => exact lex_nil state
  | case2 t => exact (hts t List.mem_cons_self).lex_spelled hesc state
  | case3 t u ts ih =>
    rw [List.forall_mem_cons] at hts
    obtain ⟨state', hfirst⟩ := hts.1.lex_spelled_blank hesc hblank state
      ((spelled esc (u :: ts)).map .ofChar)
    rw [spelled, List.map_append, hfirst, ih hts.2 state', rescanned, List.map_append]

/-- A text with what is written for a list is one line, or no line if the list is empty. -/
theorem lines_of_spelledOut {s : String} (hs : s.toList = spelledOut esc ts) (hesc : esc ≠ '\n')
    (hts : ∀ t ∈ ts, t.Legible cat) :
    Text.lines s = if ts = [] then [] else [spelledOut esc ts] := by
  obtain rfl | ⟨init, t, rfl⟩ := ts.eq_nil_or_concat'
  · rw [Text.lines, hs]
    rfl
  · have hline : '\n' ∉ spelledOut esc (init ++ [t]) := by
      rw [spelledOut, List.mem_flatMap]
      rintro ⟨u, hu, hmem⟩
      exact (hts u hu).not_mem_spelled hesc hmem
    obtain ⟨cs, c, hlast, hc⟩ := (hts t (by simp)).exists_concat esc
    have hend : s.toList = spelledOut esc init ++ cs ++ [c] := by
      rw [hs, spelledOut, List.flatMap_append, List.flatMap_singleton, hlast, List.append_assoc,
        spelledOut]
    rw [Text.lines_of_concat hend (hs ▸ hline) hc, hs, if_neg (by simp)]

/-- A text with what is written for a list gives the rescanned list, and nothing else. -/
theorem lexemes_of_spelledOut {lexicon : Lexicon} {s : String} (h : lexicon.Spells esc)
    (hs : s.toList = spelledOut esc ts) (hts : ∀ t ∈ ts, t.Legible lexicon.catcode) :
    (Text.lines s).flatMap (lexLine lexicon) = (rescanned lexicon.catcode ts).map .token := by
  rw [lines_of_spelledOut hs h.line hts]
  split
  · rename_i hnil
    rw [hnil]
    rfl
  · rw [List.flatMap_singleton, lexLine, rdropWhile_spelledOut h.escape h.blank hts, h.noEnd,
      Option.toList_none, List.append_nil]
    exact lex_spelled h.escape h.blank hts .newLine

theorem length_le_rescanned (cat : CharCode → Catcode) (ts : TokenList) :
    ts.length ≤ (rescanned cat ts).length := by
  induction ts using rescanned.induct with
  | case1 => exact Nat.le_refl _
  | case2 t => exact Nat.le_refl _
  | case3 t u ts ih =>
    have hfirst : 1 ≤ (if t.isSymbol cat then [t, .space] else [t] : TokenList).length := by
      split <;> simp
    rw [rescanned, List.length_append, List.length_cons, Nat.add_comm]
    exact Nat.add_le_add hfirst ih

/-- The list comes back as it was exactly if no token follows a symbol. -/
theorem rescanned_eq_self_iff :
    rescanned cat ts = ts ↔ ∀ t ∈ ts.dropLast, t.isSymbol cat = false := by
  induction ts using rescanned.induct with
  | case1 => simp [rescanned]
  | case2 t => simp [rescanned]
  | case3 t u ts ih =>
    rw [rescanned, List.dropLast_cons_cons, List.forall_mem_cons]
    cases t.isSymbol cat with
    | false => simpa using ih
    | true =>
      -- With one more token, the list is longer than it was.
      have hlonger := length_le_rescanned cat (u :: ts)
      simp only [if_true, Bool.true_eq_false, false_and, iff_false]
      intro heq
      have hlengths := congrArg List.length heq
      simp at hlengths hlonger
      omega

end TokenList

end Spelling

end TexEngine
