/-
  TexEngine.Proofs.Input.Gauge

  How much input there is.  A gauge measures character codes and tokens.  It fits a lexer
  if no lexeme measures more than the codes that it is made of; then reading a token takes
  at least the measure of this token away from the input, whatever the lines look like.

  Two gauges fit.  One of them counts codes and tokens.  The other one weighs what can
  become a control sequence: escape characters, and the characters and notations that
  stand for one.
-/
import Mathlib.Algebra.GroupWithZero.Nat
import TexEngine.Input.Source
import TexEngine.Proofs.Env.Valuation
import TexEngine.Proofs.Input.LineLexer

namespace TexEngine

/-- A measure of character codes and of tokens. -/
structure Gauge where
  code : CharCode → Nat
  token : Token → Nat

namespace Gauge

variable (g : Gauge)

/-! ## Measured input -/

/-- The measure of a list of codes. -/
def codes (cs : List CharCode) : Nat :=
  (cs.map g.code).sum

/-- The measure of a list of tokens. -/
def tokens (ts : TokenList) : Nat :=
  (ts.map g.token).sum

/-- The measure of a line, with the character that is appended to it. -/
def line (l : List Char) : Nat :=
  g.codes (l.map CharCode.ofChar) + g.code 13

/-- The measure of the lines that are left. -/
def reader (r : Reader) : Nat :=
  (r.lines.map g.line).sum

/-- The measure of what a stream has to give. -/
def stream (s : Stream) : Nat :=
  g.tokens s.pushed + g.codes s.cursor.rest + (s.reader.map g.reader).getD 0

/-- The measure of all input. -/
def source (src : Source) : Nat :=
  (src.streams.map g.stream).sum

@[simp] theorem codes_nil : g.codes [] = 0 := rfl

@[simp] theorem codes_cons (c : CharCode) (cs : List CharCode) :
    g.codes (c :: cs) = g.code c + g.codes cs :=
  List.sum_cons

@[simp] theorem codes_append (cs ds : List CharCode) :
    g.codes (cs ++ ds) = g.codes cs + g.codes ds := by
  simp [codes]

@[simp] theorem codes_reverse (cs : List CharCode) : g.codes cs.reverse = g.codes cs := by
  simp [codes, List.sum_reverse]

@[simp] theorem tokens_nil : g.tokens [] = 0 := rfl

@[simp] theorem tokens_cons (t : Token) (ts : TokenList) :
    g.tokens (t :: ts) = g.token t + g.tokens ts :=
  List.sum_cons

@[simp] theorem tokens_append (ts us : TokenList) :
    g.tokens (ts ++ us) = g.tokens ts + g.tokens us := by
  simp [tokens]

@[simp] theorem tokens_reverse (ts : TokenList) : g.tokens ts.reverse = g.tokens ts := by
  simp [tokens, List.sum_reverse]

theorem codes_le_of_sublist {cs ds : List CharCode} (h : cs.Sublist ds) :
    g.codes cs ≤ g.codes ds := by
  induction h with
  | slnil => exact Nat.le_refl _
  | cons c _ ih => rw [codes_cons]; omega
  | cons_cons c _ ih => rw [codes_cons, codes_cons]; omega

/-! ## Reading -/

/-- No lexeme measures more than what it is made of.  A superscript character is one half
    of a notation for any code, and a line end may become \par. -/
structure Fits (lex : Lexicon) : Prop where
  char : ∀ c k, g.token (.char c k) ≤ g.code c
  name : ∀ c cs, lex.catcode c = .escape →
    g.token (.cs (CharCode.listText cs)) ≤ g.code c + g.codes cs
  hat : ∀ c d, lex.catcode c = .superscript → g.code d ≤ g.code c + g.code c
  lineEnd : ∀ c, lex.catcode c = .endOfLine →
    g.token (.cs "par") ≤ g.code c ∧ g.token .space ≤ g.code c
  blank : ∀ c, lex.catcode c = .space → g.token .space ≤ g.code c
  appended : ∀ c ∈ lex.endLineChar (), g.code c ≤ g.code 13
  lineFeed : g.code 13 ≤ g.code 10

open LineLexer

variable {g} {lex : Lexicon} (h : g.Fits lex)
include h

/-- Both superscript characters of a notation pay for the code that it denotes. -/
theorem Fits.codes_le_of_hat? {cs cs' : List CharCode} (hhat : hat? lex.catcode cs = some cs') :
    g.codes cs' ≤ g.codes cs := by
  match cs with
  | [] | [_] | [_, _] => nomatch hhat
  | c :: c' :: x :: rest =>
    rw [hat?_cons] at hhat
    split at hhat
    · rename_i hsup
      obtain ⟨hsup, rfl⟩ := hsup
      split at hhat
      · rename_i v _
        obtain rfl := Option.some.inj hhat
        have hcode := h.hat c' v hsup
        have htail := g.codes_le_of_sublist (List.tail_sublist rest)
        simp only [codes_cons]
        omega
      · split at hhat
        · obtain rfl := Option.some.inj hhat
          have hcode := h.hat c' (Hat.flip x) hsup
          simp only [codes_cons]
          omega
        · contradiction
    · contradiction

theorem Fits.codes_unhat_le (cs : List CharCode) :
    g.codes (unhat lex.catcode cs) ≤ g.codes cs := by
  fun_induction unhat lex.catcode cs with
  | case1 cs cs' hhat ih => exact ih.trans (h.codes_le_of_hat? hhat)
  | case2 cs hhat => exact Nat.le_refl _

theorem Fits.codes_of_unhat_eq_cons {cs rest : List CharCode} {c : CharCode}
    (hunhat : unhat lex.catcode cs = c :: rest) : g.code c + g.codes rest ≤ g.codes cs := by
  have hle := h.codes_unhat_le cs
  rwa [hunhat, codes_cons] at hle

theorem Fits.codes_word_le (cs : List CharCode) :
    g.codes (word lex.catcode cs).1 + g.codes (word lex.catcode cs).2 ≤ g.codes cs := by
  fun_induction word lex.catcode cs with
  | case1 cs hunhat => exact Nat.zero_le _
  | case2 cs c rest hunhat hletter ih =>
    have hle := h.codes_of_unhat_eq_cons hunhat
    simp only [Prod.map_fst, Prod.map_snd, codes_cons, id_eq]
    omega
  | case3 cs c rest hunhat hletter =>
    have hle := h.codes_of_unhat_eq_cons hunhat
    simp only [codes_nil, codes_cons]
    omega

theorem Fits.codes_name_le (cs : List CharCode) :
    g.codes (LineLexer.name lex.catcode cs).1 + g.codes (LineLexer.name lex.catcode cs).2.2 ≤
      g.codes cs := by
  unfold LineLexer.name
  split
  · exact Nat.zero_le _
  · rename_i c rest hunhat
    have hle := h.codes_of_unhat_eq_cons hunhat
    split
    · have hword := h.codes_word_le rest
      dsimp only
      rw [codes_cons]
      omega
    · simp only [codes_cons, codes_nil]
      omega

/-- A control sequence is made of its escape character and its name. -/
theorem Fits.controlSequence_le {c : CharCode} (hc : lex.catcode c = .escape) (cur : Cursor) :
    g.token (cur.controlSequence lex.catcode).1 +
        g.codes (cur.controlSequence lex.catcode).2.rest ≤ g.code c + g.codes cur.rest := by
  obtain ⟨ht, -, hrest⟩ := cur.controlSequence_spec lex.catcode
  have hname := h.codes_name_le cur.rest
  have htoken := h.name c (LineLexer.name lex.catcode cur.rest).1 hc
  rw [ht, hrest]
  omega

/-- The code at the position of a cursor and what stands behind it are what is left of the line,
    or less. -/
theorem Fits.codes_of_reduce {cur : Cursor}
    (hnext : (cur.reduce lex.catcode).pos < (cur.reduce lex.catcode).line.length) :
    g.code (cur.reduce lex.catcode).line[(cur.reduce lex.catcode).pos] +
      g.codes (cur.reduce lex.catcode).advance.rest ≤ g.codes cur.rest :=
  h.codes_of_unhat_eq_cons (Cursor.unhat_rest hnext)

end Gauge

/-- The token that a lexeme is, if it is one. -/
def Lexeme.token? : Lexeme → Option Token
  | .token t => some t
  | .invalid _ => none

namespace Gauge

open LineLexer

variable {g : Gauge} {lex : Lexicon} (h : g.Fits lex)
include h

/-- What the lexer gives, and what is left of the line, are made of the line. -/
theorem Fits.next?_le (cur : Cursor) :
    (((cur.next? lex.catcode).1.bind Lexeme.token?).map g.token).getD 0 +
        g.codes (cur.next? lex.catcode).2.rest ≤ g.codes cur.rest := by
  fun_induction Cursor.next? lex.catcode cur with
  | case1 cur hlt next hnext c after hcat t cur' hcs =>
    have hle : g.code c + g.codes after.rest ≤ g.codes cur.rest := h.codes_of_reduce hnext
    have hcontrol := h.controlSequence_le hcat after
    rw [hcs] at hcontrol
    dsimp only [Option.bind_some, Lexeme.token?, Option.map_some, Option.getD_some] at hcontrol ⊢
    exact hcontrol.trans hle
  | case2 cur hlt next hnext c after hcat hstate =>
    -- The \par of an empty line is paid for by the character that ends the line.
    have hle : g.code c + g.codes after.rest ≤ g.codes cur.rest := h.codes_of_reduce hnext
    have hend := (h.lineEnd c hcat).1
    simp only [Option.bind_some, Lexeme.token?, Option.map_some, Option.getD_some,
      rest_finish, codes_nil]
    omega
  | case3 cur hlt next hnext c after hcat hstate =>
    have hle : g.code c + g.codes after.rest ≤ g.codes cur.rest := h.codes_of_reduce hnext
    have hend := (h.lineEnd c hcat).2
    simp only [Option.bind_some, Lexeme.token?, Option.map_some, Option.getD_some,
      rest_finish, codes_nil]
    omega
  | case4 cur hlt next hnext c after hcat hstate =>
    simp only [rest_finish, codes_nil]
    exact Nat.zero_le _
  | case5 cur hlt next hnext c after hcat hstate =>
    have hle : g.code c + g.codes after.rest ≤ g.codes cur.rest := h.codes_of_reduce hnext
    have hblank := h.blank c hcat
    exact (Nat.add_le_add_right hblank _).trans hle
  | case6 cur hlt next hnext c after hcat hstate ih =>
    exact ih.trans ((Nat.le_add_left _ _).trans (h.codes_of_reduce hnext))
  | case7 cur hlt next hnext c after hcat ih =>
    exact ih.trans ((Nat.le_add_left _ _).trans (h.codes_of_reduce hnext))
  | case8 cur hlt next hnext c after hcat =>
    simp only [rest_finish, codes_nil]
    exact Nat.zero_le _
  | case9 cur hlt next hnext c after hcat =>
    have hle : g.code c + g.codes after.rest ≤ g.codes cur.rest := h.codes_of_reduce hnext
    dsimp only [Option.bind_some, Lexeme.token?, Option.map_none, Option.getD_none]
    exact (Nat.add_le_add_right (Nat.zero_le _) _).trans hle
  | case10 cur hlt next hnext c after =>
    have hle : g.code c + g.codes after.rest ≤ g.codes cur.rest := h.codes_of_reduce hnext
    have hchar := h.char c (lex.catcode c)
    exact (Nat.add_le_add_right hchar _).trans hle
  | case11 cur hlt => exact Nat.le_of_eq (Nat.zero_add _)

/-! ## Streams -/

theorem Fits.ofLine_le (l : List Char) :
    g.codes (Cursor.ofLine (lex.endLineChar ()) l).rest ≤ g.line l := by
  have hkept : ((l.reverse.dropWhile (· == ' ')).reverse.map CharCode.ofChar).Sublist
      (l.map CharCode.ofChar) := by
    refine List.Sublist.map _ ?_
    have hdrop := (List.dropWhile_sublist (· == ' ') (l := l.reverse)).reverse
    rwa [List.reverse_reverse] at hdrop
  have hend : g.codes (lex.endLineChar ()).toList ≤ g.code 13 := by
    cases hchar : lex.endLineChar () with
    | none => exact Nat.zero_le _
    | some c => simpa using h.appended c hchar
  have hle := g.codes_le_of_sublist hkept
  show g.codes (_ ++ _) ≤ _
  rw [codes_append, line]
  exact Nat.add_le_add hle hend

end Gauge

/-- The token that a stream gives, if it gives one. -/
def StreamResult.token? : StreamResult → Option Token
  | .token t => some t
  | _ => none

theorem Stream.token?_resultOf (x? : Option Lexeme) :
    (resultOf x?).token? = x?.bind Lexeme.token? := by
  cases x? with
  | none => rfl
  | some x => cases x <;> rfl

namespace Gauge

variable {g : Gauge} {lex : Lexicon} (h : g.Fits lex)
include h

theorem Fits.readLines_le (r : Reader) (cur : Cursor) :
    (((Stream.readLines lex r cur).1.token?).map g.token).getD 0 +
        g.codes (Stream.readLines lex r cur).2.2.rest +
        g.reader (Stream.readLines lex r cur).2.1 ≤ g.codes cur.rest + g.reader r := by
  fun_induction Stream.readLines lex r cur with
  | case1 r cur r' hline | case2 r cur message r' hline =>
    obtain ⟨hlines, hrest⟩ := Reader.lines_of_readLine_error hline
    simp [StreamResult.token?, reader, hlines, hrest]
  | case3 r cur bytes next hline line x cur' hnext =>
    -- A line that is read is taken off the reader.
    have hlines : g.reader r = g.line (Text.Utf8.decodeFrom 0 bytes) + g.reader next := by
      rw [reader, Reader.lines_of_readLine_ok hline, List.map_cons, List.sum_cons, reader]
    have hle : g.codes line.rest ≤ g.line (Text.Utf8.decodeFrom 0 bytes) := h.ofLine_le _
    have hfound := h.next?_le line
    rw [hnext] at hfound
    dsimp only at hfound ⊢
    rw [Stream.token?_resultOf]
    omega
  | case4 r cur bytes next hline line cur' hnext ih =>
    have hlines : g.reader r = g.line (Text.Utf8.decodeFrom 0 bytes) + g.reader next := by
      rw [reader, Reader.lines_of_readLine_ok hline, List.map_cons, List.sum_cons, reader]
    have hle : g.codes line.rest ≤ g.line (Text.Utf8.decodeFrom 0 bytes) := h.ofLine_le _
    have hfound := h.next?_le line
    rw [hnext] at hfound
    dsimp only [Option.bind_none, Option.map_none, Option.getD_none] at hfound
    omega

theorem Fits.read_le (s : Stream) :
    (((s.read lex).1.token?).map g.token).getD 0 + g.stream (s.read lex).2 ≤ g.stream s := by
  have hfound := h.next?_le s.cursor
  unfold Stream.read stream
  cases hnext : s.cursor.next? lex.catcode with
  | mk x? cursor =>
    rw [hnext] at hfound
    cases x? with
    | some x =>
      dsimp only at hfound ⊢
      rw [Stream.token?_resultOf]
      omega
    -- A line that has ended costs nothing more, so the next lines may be loaded in its place.
    | none =>
      dsimp only [Option.bind_none, Option.map_none, Option.getD_none] at hfound ⊢
      split
      · rename_i hreader
        simp only [StreamResult.token?, Option.map_none, Option.getD_none]
        omega
      · rename_i r hreader
        split
        · simp only [StreamResult.token?, Option.map_none, Option.getD_none]
          omega
        · have hlines := h.readLines_le r cursor
          generalize Stream.readLines lex r cursor = found at hlines ⊢
          obtain ⟨result, r', cursor'⟩ := found
          rw [hreader]
          simp only [Option.map_some, Option.getD_some] at hlines ⊢
          omega

/-! ## Sources -/

theorem Fits.nextFrom_le (src : Source) (closed : List StreamId) (streams : List Stream) :
    match (src.nextFrom lex closed streams).result with
    | .ok t? => (t?.map g.token).getD 0 + g.source (src.nextFrom lex closed streams).source ≤
        (streams.map g.stream).sum
    | .error _ => True := by
  -- The cases are: no stream, a token that was pushed back, one from the line, a fault, and a
  -- stream that is finished.
  fun_induction Source.nextFrom lex src closed streams with
  | case1 closed => exact Nat.zero_le _
  | case2 closed s rest t ts hpushed =>
    simp only [Option.map_some, Option.getD_some, source, List.map_cons, List.sum_cons, stream,
      hpushed, tokens_cons]
    omega
  | case3 closed s rest hpushed t s' hread =>
    have hle := h.read_le s
    rw [hread] at hle
    simp only [StreamResult.token?, Option.map_some, Option.getD_some, source, List.map_cons,
      List.sum_cons] at hle ⊢
    omega
  | case4 closed s rest hpushed f s' hread src' => exact True.intro
  | case5 closed s rest hpushed s' hread ih =>
    revert ih
    cases (src.nextFrom lex ((Source.streamId? s).toList ++ closed) rest).result with
    | error f => exact id
    | ok t? =>
      intro ih
      dsimp only at ih ⊢
      rw [List.map_cons, List.sum_cons]
      omega

/-- A token is taken from the input with all that it measures. -/
theorem Fits.next_le (src : Source) (t? : Option Token)
    (hnext : (src.next lex).result = .ok t?) :
    (t?.map g.token).getD 0 + g.source (src.next lex).source ≤ g.source src := by
  have hle := h.nextFrom_le src [] src.streams
  rw [← Source.next, hnext] at hle
  exact hle

omit h

theorem source_endInput (src : Source) : g.source src.endInput = g.source src :=
  congrArg List.sum (Source.map_mark (fun _ => rfl) src.streams)

/-! ## Texts -/

/-- The measure of a text. -/
def text (g : Gauge) (s : String) : Nat :=
  g.codes (CharCode.ofText s)

theorem codes_dropReturn_le (line : List Char) :
    g.codes ((Text.dropReturn line).reverse.map CharCode.ofChar) ≤
      g.codes (line.map CharCode.ofChar) := by
  rw [List.map_reverse, codes_reverse]
  unfold Text.dropReturn
  split
  · rw [List.map_cons, codes_cons]
    exact Nat.le_add_left _ _
  · exact Nat.le_refl _

/-- Every line but the last one ends with a line feed, which pays for the character that
    is appended to the line. -/
theorem Fits.linesFrom_le (h : g.Fits lex) (line cs : List Char) :
    ((Text.linesFrom line cs).map g.line).sum ≤
      g.codes (line.map CharCode.ofChar) + g.codes (cs.map CharCode.ofChar) + g.code 13 := by
  induction cs generalizing line with
  | nil =>
    have hle := g.codes_dropReturn_le line
    unfold Text.linesFrom
    split
    · exact Nat.zero_le _
    · simp only [List.map_cons, List.map_nil, List.sum_cons, List.sum_nil, Gauge.line, codes_nil]
      omega
  | cons c cs ih =>
    unfold Text.linesFrom
    rw [List.map_cons, codes_cons]
    -- A line feed ends the line and pays for its end; other characters stay in the line.
    split
    · rename_i hfeed
      have hpaid : g.code 13 ≤ g.code (CharCode.ofChar c) := by
        rw [beq_iff_eq.mp hfeed]
        exact h.lineFeed
      have hle := g.codes_dropReturn_le line
      have hrest := ih []
      simp only [List.map_cons, List.sum_cons, Gauge.line, List.map_nil, codes_nil] at hrest ⊢
      omega
    · have hrest := ih (c :: line)
      rw [List.map_cons, codes_cons] at hrest
      omega

theorem Fits.source_pushText_le (h : g.Fits lex) (src : Source) (s name : String) :
    g.source (src.pushText s name) ≤ g.text s + g.code 13 + g.source src := by
  have hlines := h.linesFrom_le [] s.toList
  have hnew : g.source (src.pushText s name) =
      ((Text.linesFrom [] s.toList).map g.line).sum + g.source src := by
    have hempty : ({} : Cursor).rest = [] := rfl
    simp [Source.pushText, Source.pushReader, source, stream, reader, Reader.lines_ofText,
      Text.lines, hempty]
  rw [hnew]
  unfold text CharCode.ofText
  rw [List.map_nil, codes_nil] at hlines
  omega

/-! ## Texts of tokens -/

theorem text_append (g : Gauge) (s s' : String) : g.text (s ++ s') = g.text s + g.text s' := by
  simp [text, CharCode.ofText]

theorem text_join (g : Gauge) (l : List String) : g.text (String.join l) = (l.map g.text).sum := by
  induction l with
  | nil => rfl
  | cons s l ih => rw [String.join_cons, text_append, ih, List.map_cons, List.sum_cons]

/-! ## Counting -/

/-- Every code and every token counts once. -/
def count : Gauge where
  code _ := 1
  token _ := 1

theorem count_fits (lex : Lexicon) : count.Fits lex where
  char _ _ := Nat.le_refl 1
  name _ _ _ := Nat.le_add_right 1 _
  hat _ _ _ := Nat.le_add_right 1 1
  lineEnd _ _ := ⟨Nat.le_refl 1, Nat.le_refl 1⟩
  blank _ _ := Nat.le_refl 1
  appended _ _ := Nat.le_refl 1
  lineFeed := Nat.le_refl 1

end Gauge

/-! ## Weighing -/

/-- A backslash begins a control sequence, and so does the \par that a line end may become.
    Two hats may stand for any of these.  The letter n has a weight because the names of
    those primitives contain it that may lead to more tokens than they have read; twice in
    the case of \scantokens, which adds a line end. -/
def CharCode.weight (c : CharCode) : Nat :=
  if c = 92 then 16
  else if c = 94 then 32
  else if c = 10 ∨ c = 13 then 16
  else if c = 110 then 9
  else 0

theorem CharCode.weight_le (c : CharCode) : c.weight ≤ 32 := by
  unfold weight
  split
  · decide
  · split
    · decide
    · split
      · decide
      · split <;> decide

/-- A code without a character has no weight, like the character that is shown for it. -/
theorem CharCode.weight_ofChar_toChar (c : Int) : (ofChar (toChar c)).weight = weight c := by
  by_cases hc : IsScalar c
  · have hcode : ofChar (toChar c) = c := by
      have hnat := toNat_toChar hc
      have hbounds := (isScalar_iff c).mp hc
      show ((toChar c).toNat : Int) = c
      omega
    rw [hcode]
  · have hbounds := mt (isScalar_iff c).mpr hc
    have hnone : weight c = 0 := by
      have hne : ∀ k : Int, 0 ≤ k → k < 0xD800 → c ≠ k := by
        intro k hlow hhigh hck
        omega
      rw [weight, if_neg (hne 92 (by decide) (by decide)), if_neg (hne 94 (by decide) (by decide)),
        if_neg (not_or.mpr ⟨hne 10 (by decide) (by decide), hne 13 (by decide) (by decide)⟩),
        if_neg (hne 110 (by decide) (by decide))]
    rw [hnone, toChar, if_neg hc]
    rfl

namespace Gauge

/-- A token weighs as much as its text. -/
def weight : Gauge where
  code := CharCode.weight
  token t := ((CharCode.ofText (t.format (some Token.backslash))).map CharCode.weight).sum

theorem token_weight (t : Token) :
    weight.token t = weight.text (t.format (some Token.backslash)) := rfl

theorem weight_text_charText (c : CharCode) : weight.text c.text = c.weight := by
  have hcodes : CharCode.ofText c.text = [CharCode.ofChar c.toChar] := by
    simp [CharCode.ofText, CharCode.text]
  rw [text, hcodes, codes_cons, codes_nil, Nat.add_zero]
  exact CharCode.weight_ofChar_toChar c

theorem weight_text_listText (cs : List CharCode) :
    weight.text (CharCode.listText cs) = weight.codes cs := by
  have hcodes : CharCode.ofText (CharCode.listText cs) =
      cs.map fun c => CharCode.ofChar c.toChar := by
    simp [CharCode.ofText, CharCode.listText]
  rw [text, hcodes]
  induction cs with
  | nil => rfl
  | cons c cs ih =>
    rw [List.map_cons, codes_cons, codes_cons, ih (by simp [CharCode.ofText, CharCode.listText])]
    exact congrArg (· + _) (CharCode.weight_ofChar_toChar c)

theorem weight_char (c : CharCode) (k : Catcode) : weight.token (.char c k) = c.weight :=
  weight_text_charText c

theorem weight_cs (name : String) : weight.token (.cs name) = 16 + weight.text name := by
  have hescape : weight.text (Token.escapeText (some Token.backslash)) = 16 :=
    weight_text_charText _
  rw [token_weight, Token.format, text_append, hescape]

theorem weight_frozenRelax : weight.token .frozenRelax = 16 := by
  decide

/-- Text that is turned into tokens keeps its weight. -/
theorem weight_ofText (s : String) : weight.tokens (TokenList.ofText s) = weight.text s := by
  have hchar : ∀ c : Char, weight.token (TokenList.ofChar c) = (CharCode.ofChar c).weight := by
    intro c
    unfold TokenList.ofChar
    split
    · rename_i hblank
      rw [beq_iff_eq.mp hblank]
      rfl
    · exact weight_char _ _
  unfold TokenList.ofText text CharCode.ofText
  induction s.toList with
  | nil => rfl
  | cons c cs ih =>
    rw [List.map_cons, tokens_cons, hchar, List.map_cons, codes_cons, ih]
    rfl

end Gauge

/-- Only the usual characters begin control sequences and ^^ notation and end lines. -/
structure Lexicon.Ordinary (lex : Lexicon) : Prop where
  escape : ∀ c, lex.catcode c = .escape → c = 92
  superscript : ∀ c, lex.catcode c = .superscript → c = 94
  endOfLine : ∀ c, lex.catcode c = .endOfLine → c = 13
  endLineChar : lex.endLineChar () = some 13

theorem Gauge.weight_fits {lex : Lexicon} (h : lex.Ordinary) : Gauge.weight.Fits lex where
  char c k := Nat.le_of_eq (weight_char c k)
  name c cs hc := by
    rw [h.escape c hc, weight_cs, weight_text_listText]
    exact Nat.le_refl _
  hat c d hc := by
    rw [h.superscript c hc]
    exact Nat.le_trans d.weight_le (by decide)
  lineEnd c hc := by
    rw [h.endOfLine c hc]
    decide
  blank c _ := Nat.zero_le _
  appended c hc := by
    rw [h.endLineChar] at hc
    exact Nat.le_of_eq (congrArg _ (Option.mem_some_iff.mp hc).symm)
  lineFeed := by decide

end TexEngine
