/-
  TexEngine.Proofs.Input.LegalTokens

  The codes of character tokens.  The characters of a text, the codes that ^^ notation
  denotes, and the character at the end of a line all lie between 0 and the largest
  character code; so do the codes of all tokens that the input gives, if this holds of
  the tokens that were pushed back.
-/
import TexEngine.Proofs.Input.Reads

namespace TexEngine

/-! ## Codes and tokens -/

/-- The code lies between 0 and the largest one that can be written. -/
def CharCode.InRange (c : CharCode) : Prop :=
  0 ≤ c ∧ c ≤ CharCode.max

instance (c : CharCode) : Decidable c.InRange :=
  inferInstanceAs (Decidable (_ ∧ _))

theorem CharCode.inRange_iff {c : Int} : CharCode.InRange c ↔ 0 ≤ c ∧ c ≤ 0x10FFFF :=
  Iff.rfl

theorem CharCode.inRange_ofChar (c : Char) : (CharCode.ofChar c).InRange := by
  have hvalid : c.toNat < 0x110000 := by
    rcases c.valid with h | h
    · exact Nat.lt_trans h (by decide)
    · exact h.2
  refine ⟨Int.natCast_nonneg _, ?_⟩
  show (c.toNat : Int) ≤ 0x10FFFF
  omega

/-- The code of the token, if it is a character, is in range. -/
def Token.Legal (t : Token) : Prop :=
  t.code.InRange

namespace Token

theorem legal_of_code_eq_zero {t : Token} (h : t.code = 0) : t.Legal := by
  unfold Legal
  rw [h]
  decide

@[simp] theorem legal_cs (name : String) : (Token.cs name).Legal :=
  legal_of_code_eq_zero rfl

@[simp] theorem legal_param (n : Nat) : (Token.param n).Legal :=
  legal_of_code_eq_zero rfl

@[simp] theorem legal_frozenRelax : Token.frozenRelax.Legal :=
  legal_of_code_eq_zero rfl

@[simp] theorem legal_space : Token.space.Legal :=
  show CharCode.InRange 32 by decide

@[simp] theorem legal_char {c : CharCode} {k : Catcode} : (Token.char c k).Legal ↔ c.InRange :=
  Iff.rfl

end Token

/-- All tokens of the list are legal. -/
def TokenList.Legal (ts : TokenList) : Prop :=
  ∀ t ∈ ts, t.Legal

namespace TokenList

variable {ts us : TokenList} {t : Token}

@[simp] theorem legal_nil : TokenList.Legal [] := by
  simp [TokenList.Legal]

@[simp] theorem legal_cons : TokenList.Legal (t :: ts) ↔ t.Legal ∧ TokenList.Legal ts :=
  List.forall_mem_cons

@[simp] theorem legal_append : TokenList.Legal (ts ++ us) ↔ ts.Legal ∧ us.Legal :=
  List.forall_mem_append

@[simp] theorem legal_reverse : TokenList.Legal ts.reverse ↔ ts.Legal := by
  simp [TokenList.Legal]

theorem Legal.of_subset (h : ts.Legal) (hsub : us ⊆ ts) : us.Legal :=
  fun t ht => h t (hsub ht)

theorem legal_ofText (s : String) : (TokenList.ofText s).Legal := by
  intro t ht
  obtain ⟨c, -, rfl⟩ := List.mem_map.mp ht
  unfold TokenList.ofChar
  split
  · exact Token.legal_space
  · exact CharCode.inRange_ofChar c

end TokenList

/-! ## Lines -/

/-- All codes of the list are in range. -/
def LegalCodes (cs : List CharCode) : Prop :=
  ∀ c ∈ cs, c.InRange

theorem legalCodes_cons {c : CharCode} {cs : List CharCode} :
    LegalCodes (c :: cs) ↔ c.InRange ∧ LegalCodes cs :=
  List.forall_mem_cons

namespace Hat

theorem inRange_flip {c : Int} (hc : CharCode.InRange c) (hlt : c < 128) :
    CharCode.InRange (flip c) := by
  rw [CharCode.inRange_iff] at hc ⊢
  have hflip : flip c = c + 64 ∧ c % 128 < 64 ∨ flip c = c - 64 ∧ ¬ c % 128 < 64 := by
    unfold flip
    split
    · exact .inl ⟨rfl, by assumption⟩
    · exact .inr ⟨rfl, by assumption⟩
  rcases hflip with ⟨hc', hmod⟩ | ⟨hc', hmod⟩
  · rw [hc']
    omega
  · rw [hc']
    omega

theorem hexValue_bounds {c : Int} (hc : isHex c = true) :
    (0 : Int) ≤ hexValue c ∧ hexValue c ≤ 15 := by
  have hdigit : (48 ≤ c ∧ c ≤ 57) ∨ (97 ≤ c ∧ c ≤ 102) := by
    simpa [isHex] using hc
  have hvalue : hexValue c = c - 48 ∧ c ≤ 57 ∨ hexValue c = c - 87 ∧ ¬ c ≤ 57 := by
    unfold hexValue
    split
    · exact .inl ⟨rfl, by assumption⟩
    · exact .inr ⟨rfl, by assumption⟩
  rcases hvalue with ⟨hc', hle⟩ | ⟨hc', hle⟩
  · rw [hc']
    omega
  · rw [hc']
    omega

theorem inRange_hexValue {x y : Int} (hx : isHex x = true) (hy : isHex y = true) :
    CharCode.InRange (hexValue x * 16 + hexValue y) := by
  have hxb := hexValue_bounds hx
  have hyb := hexValue_bounds hy
  generalize hexValue x = a at hxb ⊢
  generalize hexValue y = b at hyb ⊢
  rw [CharCode.inRange_iff]
  exact ⟨by omega, by omega⟩

theorem inRange_of_hexPair? {x v : CharCode} {y? : Option CharCode}
    (h : hexPair? x y? = some v) : v.InRange := by
  cases y? with
  | none => contradiction
  | some y =>
    rw [hexPair?, Option.bind_some] at h
    split at h
    · rename_i hhex
      rw [Bool.and_eq_true] at hhex
      obtain rfl := Option.some.inj h
      exact inRange_hexValue hhex.1 hhex.2
    · contradiction

end Hat

namespace LineLexer

variable {cat : CharCode → Catcode} {cs rest : List CharCode} {c : CharCode}

/-- What ^^ notation denotes is in range. -/
theorem legalCodes_of_hat? {cs' : List CharCode} (h : LegalCodes cs)
    (hhat : hat? cat cs = some cs') : LegalCodes cs' := by
  match cs with
  | [] | [_] | [_, _] => nomatch hhat
  | c :: c' :: x :: rest =>
    rw [hat?_cons] at hhat
    simp only [legalCodes_cons] at h
    obtain ⟨-, -, hx, hrest⟩ := h
    split at hhat
    · split at hhat
      · rename_i hpair
        obtain rfl := Option.some.inj hhat
        exact legalCodes_cons.mpr
          ⟨Hat.inRange_of_hexPair? hpair, fun d hd => hrest d (List.mem_of_mem_tail hd)⟩
      · split at hhat
        · rename_i hlt
          obtain rfl := Option.some.inj hhat
          exact legalCodes_cons.mpr ⟨Hat.inRange_flip hx hlt, hrest⟩
        · contradiction
    · contradiction

theorem legalCodes_unhat (cat : CharCode → Catcode) (h : LegalCodes cs) :
    LegalCodes (unhat cat cs) := by
  fun_induction unhat cat cs with
  | case1 cs cs' hhat ih => exact ih (legalCodes_of_hat? h hhat)
  | case2 cs hhat => exact h

theorem legalCodes_of_unhat_eq_cons (h : LegalCodes cs) (hunhat : unhat cat cs = c :: rest) :
    c.InRange ∧ LegalCodes rest :=
  legalCodes_cons.mp (hunhat ▸ legalCodes_unhat cat h)

theorem legalCodes_word (cat : CharCode → Catcode) (h : LegalCodes cs) :
    LegalCodes (word cat cs).2 := by
  fun_induction word cat cs with
  | case1 cs hunhat => exact List.forall_mem_nil _
  | case2 cs c rest hunhat hletter ih => exact ih (legalCodes_of_unhat_eq_cons h hunhat).2
  | case3 cs c rest hunhat hletter =>
    exact legalCodes_cons.mpr (legalCodes_of_unhat_eq_cons h hunhat)

theorem legalCodes_name (cat : CharCode → Catcode) (h : LegalCodes cs) :
    LegalCodes (name cat cs).2.2 := by
  unfold name
  split
  · exact List.forall_mem_nil _
  · rename_i hunhat
    have hrest := (legalCodes_of_unhat_eq_cons h hunhat).2
    split
    · exact legalCodes_word cat hrest
    · exact hrest

end LineLexer

/-- What a lexeme gives is legal. -/
def Lexeme.Legal : Lexeme → Prop
  | .token t => t.Legal
  | .invalid _ => True

namespace Cursor

theorem legalCodes_ofLine {endLineChar : Option CharCode} (h : ∀ c ∈ endLineChar, c.InRange)
    (line : List Char) : LegalCodes (ofLine endLineChar line).rest := by
  intro c hc
  rw [rest, ofLine, List.drop_zero] at hc
  rcases List.mem_append.mp hc with hcode | hend
  · obtain ⟨ch, -, rfl⟩ := List.mem_map.mp hcode
    exact CharCode.inRange_ofChar ch
  · exact h c (Option.mem_toList.mp hend)

theorem controlSequence_legal (cat : CharCode → Catcode) {cur : Cursor}
    (h : LegalCodes cur.rest) :
    (cur.controlSequence cat).1.Legal ∧ LegalCodes (cur.controlSequence cat).2.rest := by
  obtain ⟨htoken, -, hrest⟩ := controlSequence_spec cat cur
  rw [htoken, hrest]
  exact ⟨Token.legal_cs _, LineLexer.legalCodes_name cat h⟩

/-- The code at the position is legal, and so are those behind it. -/
theorem legalCodes_of_reduce {cat : CharCode → Catcode} {cur : Cursor} (h : LegalCodes cur.rest)
    (hnext : (cur.reduce cat).pos < (cur.reduce cat).line.length) :
    (cur.reduce cat).line[(cur.reduce cat).pos].InRange ∧
      LegalCodes (cur.reduce cat).advance.rest :=
  LineLexer.legalCodes_of_unhat_eq_cons h (unhat_rest hnext)

theorem legalCodes_finish (cur : Cursor) : LegalCodes cur.finish.rest := by
  rw [LineLexer.rest_finish]
  exact List.forall_mem_nil _

/-- A line with legal codes gives legal tokens, and legal codes are left. -/
theorem next?_legal (cat : CharCode → Catcode) {cur : Cursor} (h : LegalCodes cur.rest) :
    (∀ x ∈ (cur.next? cat).1, x.Legal) ∧ LegalCodes (cur.next? cat).2.rest := by
  -- The cases are an escape, the end-of-line character in the three states, a space in the
  -- middle of a line and elsewhere, an ignored character, a comment, an invalid character, all
  -- others, and the end of the line.
  fun_induction next? cat cur with
  | case1 cur hlt next hnext c after hcat t cur' hcs =>
    have hcontrol := controlSequence_legal cat (legalCodes_of_reduce h hnext).2
    rw [hcs] at hcontrol
    exact ⟨by simpa [Lexeme.Legal] using hcontrol.1, hcontrol.2⟩
  | case2 cur hlt next hnext c after hcat hstate =>
    exact ⟨by simp [Lexeme.Legal], legalCodes_finish after⟩
  | case3 cur hlt next hnext c after hcat hstate =>
    exact ⟨by simp [Lexeme.Legal], legalCodes_finish after⟩
  | case4 cur hlt next hnext c after hcat hstate => exact ⟨by simp, legalCodes_finish after⟩
  | case5 cur hlt next hnext c after hcat hstate =>
    exact ⟨by simp [Lexeme.Legal], (legalCodes_of_reduce h hnext).2⟩
  | case6 cur hlt next hnext c after hcat hstate ih => exact ih (legalCodes_of_reduce h hnext).2
  | case7 cur hlt next hnext c after hcat ih => exact ih (legalCodes_of_reduce h hnext).2
  | case8 cur hlt next hnext c after hcat => exact ⟨by simp, legalCodes_finish after⟩
  | case9 cur hlt next hnext c after hcat =>
    exact ⟨by simp [Lexeme.Legal], (legalCodes_of_reduce h hnext).2⟩
  | case10 cur hlt next hnext c after =>
    have hlegal : c.InRange ∧ LegalCodes after.rest := legalCodes_of_reduce h hnext
    exact ⟨by simpa [Lexeme.Legal] using hlegal.1, hlegal.2⟩
  | case11 cur hlt => exact ⟨by simp, h⟩

end Cursor

/-! ## Streams -/

/-- All tokens that were pushed back, and all codes of the line, are legal. -/
structure Stream.Legal (s : Stream) : Prop where
  pushed : TokenList.Legal s.pushed
  rest : LegalCodes s.cursor.rest

namespace Stream

/-- A token that is the outcome of reading is legal. -/
def ResultLegal : StreamResult → Prop
  | .token t => t.Legal
  | _ => True

theorem resultOf_legal {x : Lexeme} (h : x.Legal) : ResultLegal (resultOf (some x)) := by
  cases x with
  | token t => exact h
  | invalid c => exact True.intro

variable {lex : Lexicon}

theorem Reads.legal {s s' : Stream} {result : StreamResult} (h : Reads lex s result s')
    (hend : ∀ c ∈ lex.endLineChar (), c.InRange) (hs : s.Legal) :
    ResultLegal result ∧ s'.Legal := by
  cases h with
  | sameLine hread =>
    have hlegal := Cursor.next?_legal lex.catcode hs.rest
    rw [hread] at hlegal
    exact ⟨resultOf_legal (hlegal.1 _ rfl), hs.pushed, hlegal.2⟩
  | @laterLine x cursor r r' skipped lines line hline hlast hreader hlines hskipped hread =>
    have hlegal := Cursor.next?_legal lex.catcode (Cursor.legalCodes_ofLine hend line)
    rw [show Cursor.ofLine (lex.endLineChar ()) line = lex.lineStart line from rfl, hread] at hlegal
    exact ⟨resultOf_legal (hlegal.1 _ rfl), hs.pushed, hlegal.2⟩
  | exhausted hline hlines hrest => exact ⟨True.intro, hs.pushed, by simp [hrest, LegalCodes]⟩
  | failed hline hlast hreader hfailure hnext hlines hrest =>
    exact ⟨True.intro, hs.pushed, by simp [hrest, LegalCodes]⟩

theorem read_legal (hend : ∀ c ∈ lex.endLineChar (), c.InRange) {s : Stream} (h : s.Legal) :
    ResultLegal (s.read lex).1 ∧ (s.read lex).2.Legal :=
  (reads lex s).legal hend h

end Stream

/-- All streams are legal. -/
def Source.Legal (src : Source) : Prop :=
  ∀ s ∈ src.streams, s.Legal

namespace Source

variable {lex : Lexicon} {src : Source}

theorem nextFrom_legal (hend : ∀ c ∈ lex.endLineChar (), c.InRange) (closed : List StreamId)
    {streams : List Stream} (h : ∀ s ∈ streams, s.Legal) :
    (∀ t, (nextFrom lex src closed streams).result = .ok (some t) → t.Legal) ∧
      (nextFrom lex src closed streams).source.Legal := by
  fun_induction nextFrom lex src closed streams with
  | case1 closed => exact ⟨by simp, by simp [Source.Legal]⟩
  | case2 closed s rest t ts hpushed =>
    rw [List.forall_mem_cons] at h
    have hs := h.1.pushed
    rw [hpushed, TokenList.legal_cons] at hs
    refine ⟨by simpa using hs.1, ?_⟩
    exact List.forall_mem_cons.mpr ⟨⟨hs.2, h.1.rest⟩, h.2⟩
  | case3 closed s rest hpushed t s' hread =>
    rw [List.forall_mem_cons] at h
    have hs := Stream.read_legal hend h.1
    rw [hread] at hs
    exact ⟨by simpa [Stream.ResultLegal] using hs.1, List.forall_mem_cons.mpr ⟨hs.2, h.2⟩⟩
  | case4 closed s rest hpushed f s' hread src' =>
    rw [List.forall_mem_cons] at h
    have hs := Stream.read_legal hend h.1
    rw [hread] at hs
    exact ⟨by simp, List.forall_mem_cons.mpr ⟨hs.2, h.2⟩⟩
  | case5 closed s rest hpushed s' hread ih =>
    rw [List.forall_mem_cons] at h
    exact ih h.2

/-- Reading gives a legal token and leaves a legal input. -/
theorem next_legal (hend : ∀ c ∈ lex.endLineChar (), c.InRange) (h : src.Legal) :
    (∀ t, (src.next lex).result = .ok (some t) → t.Legal) ∧ (src.next lex).source.Legal :=
  nextFrom_legal hend [] h

theorem push_legal (h : src.Legal) {ts : TokenList} (hts : ts.Legal) : (src.push ts).Legal := by
  cases ts with
  | nil => exact h
  | cons t ts =>
    obtain ⟨baseDir, streams, pending⟩ := src
    cases streams with
    | nil => exact List.forall_mem_singleton.mpr ⟨hts, List.forall_mem_nil _⟩
    | cons s rest =>
      obtain ⟨hs, hrest⟩ := List.forall_mem_cons.mp h
      refine List.forall_mem_cons.mpr ⟨⟨?_, hs.rest⟩, hrest⟩
      exact TokenList.legal_append.mpr ⟨hts, hs.pushed⟩

theorem pushReader_legal (h : src.Legal) (r : Reader) : (src.pushReader r).Legal :=
  List.forall_mem_cons.mpr ⟨⟨TokenList.legal_nil, List.forall_mem_nil _⟩, h⟩

theorem includeFile_legal (h : src.Legal) {files : FileTree} {fileName : String} {src' : Source}
    {r : Reader} (hinclude : src.includeFile files fileName = .ok (src', r)) : src'.Legal := by
  obtain ⟨-, baseDir, rfl⟩ := exists_of_includeFile hinclude
  exact pushReader_legal h r

theorem endInput_legal (h : src.Legal) : src.endInput.Legal :=
  forall_mem_mark (fun _ hs => ⟨hs.pushed, hs.rest⟩) h

/-- Line numbers are not negative. -/
theorem line_locator_nonneg (src : Source) : 0 ≤ src.locator.line := by
  unfold locator
  cases hfind : src.streams.findSome? Stream.locator? with
  | none => exact Int.le_refl 0
  | some l =>
    obtain ⟨s, -, hs⟩ := List.exists_of_findSome?_eq_some hfind
    unfold Stream.locator? at hs
    cases hreader : s.reader with
    | none =>
      rw [hreader] at hs
      contradiction
    | some r =>
      rw [hreader] at hs
      injection hs with hs
      rw [Option.getD_some, ← hs]
      exact Int.natCast_nonneg _

end Source

end TexEngine
