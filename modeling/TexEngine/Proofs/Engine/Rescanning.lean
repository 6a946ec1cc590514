/-
  TexEngine.Proofs.Engine.Rescanning

  Texts that are read again.  \scantokens reads a balanced text, writes its tokens with a blank
  behind each control sequence, and opens what it has written as input.  Each part is described
  on its own: reading the text in braces, and what is read once a written list stands in front
  of the input.  Together they say when the tokens come back as they were.
-/
import TexEngine.Engine.Expand
import TexEngine.Proofs.Engine.Braces
import TexEngine.Proofs.Engine.Upcoming
import TexEngine.Proofs.Input.Sequence
import TexEngine.Proofs.Input.Spelling

namespace TexEngine

/-! ## Written texts in front of the input -/

namespace Expander

theorem toList_rescannedText (esc : Char) (ts : TokenList) :
    (rescannedText (some (.ofChar esc)) ts).toList = ts.spelledOut esc := by
  induction ts with
  | nil => rfl
  | cons t ts ih =>
    have htext : (if t.isCs then t.format (some (.ofChar esc)) ++ " "
        else t.format (some (.ofChar esc))).toList = t.spelled esc ++ t.blank := by
      unfold Token.spelled Token.blank
      cases t.isCs <;> simp
    rw [rescannedText, List.map_cons, String.join_cons, String.toList_append, htext]
    exact congrArg (_ ++ ·) ih

end Expander

namespace Source

variable {lexicon : Lexicon} {esc : Char} {ts : TokenList}

/-- Lexemes that are tokens give these tokens. -/
theorem eq_map_of_gives {rs : List Result}
    (h : List.Forall₂ (fun x => Gives (some x)) (ts.map .token) rs) :
    rs = ts.map fun t => .ok (some t) := by
  rw [List.forall₂_map_left_iff] at h
  induction h with
  | nil => rfl
  | cons hgives _ ih => rw [List.map_cons, ← ih, show _ = _ from hgives]

/-- The tokens that a written list gives stand in front of the rest of the input. -/
theorem readings_rescannedText (h : lexicon.Spells esc)
    (hts : ∀ t ∈ ts, t.Legible lexicon.catcode) (src : Source) (name : String) :
    readings lexicon (src.pushText (Expander.rescannedText (some (.ofChar esc)) ts) name) =
      (ts.rescanned lexicon.catcode).map (fun t => .ok (some t)) ++ₛ readings lexicon src := by
  obtain ⟨hgives, hreadings⟩ := readings_pushText lexicon src
    (Expander.rescannedText (some (.ofChar esc)) ts) name
  rw [TokenList.lexemes_of_spelledOut h (Expander.toList_rescannedText esc ts) hts] at hgives
  rw [hreadings, eq_map_of_gives hgives, List.map_map]
  rfl

end Source

/-! ## Reading the braced text -/

namespace Expander

open Eng

variable {x : Expander} {m m₁ e : Machine} {ts : TokenList} {brace close : Token}

/-- An opening brace is read as it is. -/
theorem scanLeftBrace_of_token? (hx : 0 < x.fuel) (hm : m.marked = none)
    (hbrace : brace.hasCat .beginGroup = true) (h : token? m = .ok (some brace) m₁) :
    x.scanLeftBrace m = .ok () m₁ := by
  obtain ⟨c, rfl⟩ := hasCat_iff.mp hbrace
  obtain ⟨n, hn⟩ := Nat.exists_eq_add_one.mpr hx
  have hfrozen : m₁.frozen = false := by
    obtain ⟨-, hm₁⟩ := token?_eq_ok hm h
    rw [hm₁]
    rfl
  have hnext := x.next?_of_unexpandable hx h (unexpandable_of_not_isCommand _ rfl)
  have hread : x.nextNonRelax? m = .ok (some (.char c .beginGroup)) m₁ := by
    unfold nextNonRelax?
    rw [hn]
    refine iterate_of_done ?_ n
    have hmeaning : meaningIn m₁.env (.char c .beginGroup) = none := rfl
    rw [bind_of_ok hnext]
    dsimp only
    rw [bind_of_ok (isFrozen_apply m₁), bind_of_ok (meaning?_apply _ m₁), hfrozen, hmeaning]
    rfl
  unfold scanLeftBrace
  rw [bind_of_ok hread, bind_of_ok (expect_some ..)]
  rfl

/-- One round of `scanBalanced`. -/
def balancedStep : Nat × TokenList → Eng (Step (Nat × TokenList) TokenList) :=
  fun (depth, seen) => do
    let t ← expect (← token?) .unterminatedGroup []
    match braceDepth? depth t with
    | none => return .done seen.reverse
    | some depth => return .again (depth, t :: seen)

theorem scanBalanced_eq_iterate (x : Expander) :
    x.scanBalanced = iterate balancedStep x.fuel (0, []) := rfl

theorem countsBraces_balancedStep :
    CountsBraces (fun _ => True) { kind := .unterminatedGroup } balancedStep where
  again _ h hd seen := by
    unfold balancedStep
    dsimp only
    rw [bind_of_ok h, bind_of_ok (expect_some ..), hd]
    rfl
  done _ h hd seen := by
    unfold balancedStep
    dsimp only
    rw [bind_of_ok h, bind_of_ok (expect_some ..), hd]
    rfl
  ended h s := Machine.required_of_token?_none h .unterminatedGroup [] _

/-- A balanced text is read up to the brace that closes it. -/
theorem scanBalanced_of_yields (h : m.Yields (ts ++ [close]) e) (hts : Balanced ts)
    (hclose : close.hasCat .endGroup = true) (hfuel : ts.length < x.fuel) :
    x.scanBalanced m = .ok ts e := by
  rw [scanBalanced_eq_iterate]
  exact countsBraces_balancedStep.reads h (fun _ _ => True.intro) hts hclose hfuel

/-! ## Rescanned texts -/

/-- \scantokens reads a balanced text in braces and puts what it writes for this text in front
    of the input behind the braces.  The environment stays as it is. -/
theorem exists_expandScanTokens (hm : m.marked = none) (hbrace : brace.hasCat .beginGroup = true)
    (hclose : close.hasCat .endGroup = true) (hts : Balanced ts)
    (hread : m.Yields (brace :: ts ++ [close]) e) (hfuel : ts.length < x.fuel)
    (hroom : e.input.depth < e.limits.inputDepth) :
    ∃ m', x.expandScanTokens m = .ok () m' ∧ m'.env = m.env ∧
      m'.input = e.input.pushText (rescannedText m.env.escapeChar ts) "scantokens" := by
  obtain ⟨m₁, hfirst, hrest⟩ := hread.exists_of_cons
  have hcheck : checkInputDepth e = .ok () e := by
    unfold checkInputDepth
    rw [bind_of_ok (get_apply e), if_neg (Nat.not_le.mpr hroom)]
    rfl
  obtain ⟨es, hpush⟩ := pushText_apply (rescannedText e.env.escapeChar ts) "scantokens" e
  unfold expandScanTokens
  rw [bind_of_ok (scanLeftBrace_of_token? (by omega) hm hbrace hfirst),
    bind_of_ok (scanBalanced_of_yields hrest hts hclose hfuel), bind_of_ok hcheck,
    bind_of_ok (env_apply e), hpush]
  refine ⟨_, rfl, hread.env_eq, ?_⟩
  rw [hread.env_eq]
  rfl

/-- Rescanning ordinary tokens.  Let \escapechar be a character of category escape, let
    \endlinechar be negative and the category of the blank be that of a blank, and let `ts` be
    characters with their categories and control sequences named by words or by single
    characters of category other.  Then \scantokens expands the text in braces, the
    environment stays as it is, and what is read next is `ts` with a space behind each symbol
    that another token follows, and then the rest of the input.  So the tokens come back as
    they were exactly if no token follows a symbol. -/
theorem scantokens_rereads (call : Token) {esc : Char} (hm : m.marked = none)
    (hescape : m.env.escapeChar = some (.ofChar esc)) (hspells : m.env.lexicon.Spells esc)
    (hbrace : brace.hasCat .beginGroup = true) (hclose : close.hasCat .endGroup = true)
    (hts : ∀ t ∈ ts, t.Legible m.env.catcode) (hread : m.Yields (brace :: ts ++ [close]) e)
    (hfuel : ts.length < x.fuel) (hroom : e.input.depth < e.limits.inputDepth) :
    (∃ m', x.perform (.expandable .scantokens) call m = .ok () m' ∧ m'.env = m.env ∧
      Source.readings m.env.lexicon m'.input =
        (ts.rescanned m.env.catcode).map (fun t => .ok (some t)) ++ₛ
          Source.readings m.env.lexicon e.input) ∧
    (ts.rescanned m.env.catcode = ts ↔
      ∀ t ∈ ts.dropLast, t.isSymbol m.env.catcode = false) := by
  have hbalanced : Balanced ts := balanced_of_not_brace fun t ht => (hts t ht).not_brace
  obtain ⟨m', hrun, henv, hinput⟩ := exists_expandScanTokens hm hbrace hclose hbalanced hread
    hfuel hroom
  refine ⟨⟨m', hrun, henv, ?_⟩, TokenList.rescanned_eq_self_iff⟩
  rw [hinput, hescape]
  exact Source.readings_rescannedText hspells hts e.input "scantokens"

/-- A machine with the usual escape character, and with nothing at the ends of its lines. -/
def rescanning : Machine where
  env :=
    { counts :=
        ((∅ : Std.TreeMap String Int64).insert "escapechar" 92).insert "endlinechar" (-1) }

theorem escapeChar_rescanning : rescanning.env.escapeChar = some (.ofChar '\\') := by
  have hcount : rescanning.env.count "escapechar" = 92 := by
    simp [rescanning, Env.count, Std.TreeMap.getD_insert]
  rw [Env.escapeChar, Env.charParameter, hcount]
  rfl

theorem spells_rescanning : rescanning.env.lexicon.Spells '\\' := by
  refine ⟨rfl, by decide, rfl, ?_⟩
  have hcount : rescanning.env.count "endlinechar" = -1 := by
    simp [rescanning, Env.count]
  show rescanning.env.endLineChar = none
  rw [Env.endLineChar, Env.charParameter, hcount]
  rfl

/-- A symbol in front of a letter, and one at the end. -/
def symbols : TokenList :=
  [.cs "1", .letter 97, .cs "ab", .other 49, .cs "-"]

theorem legible_symbols : ∀ t ∈ symbols, t.Legible rescanning.env.catcode := by
  simp only [symbols, List.forall_mem_cons, List.not_mem_nil, false_implies, implies_true, and_true]
  have hword : ∀ c ∈ ['a', 'b'], rescanning.env.catcode (.ofChar c) = .letter := by
    simp only [List.forall_mem_cons]
    exact ⟨rfl, rfl, fun c hc => nomatch hc⟩
  exact ⟨.cs (@LegibleName.symbol _ '1' rfl) (by decide),
    @Token.Legible.char _ 'a' _ (.inl rfl) rfl (by decide) (by decide),
    .cs (.word (List.cons_ne_nil _ _) hword) (by decide),
    @Token.Legible.char _ '1' _ (.inr rfl) rfl (by decide) (by decide),
    .cs (@LegibleName.symbol _ '-' rfl) (by decide)⟩

theorem scantokens_rereads_symbols :
    let text := .char 123 .beginGroup :: symbols ++ [.char 125 .endGroup]
    let m := rescanning.feed (text ++ [.letter 98])
    ∃ m', (ofDepth 20 1).perform (.expandable .scantokens) (.cs "scantokens") m = .ok () m' ∧
      m'.env = m.env ∧
      Source.readings m.env.lexicon m'.input =
        ([.cs "1", .space, .letter 97, .cs "ab", .other 49, .cs "-", .letter 98] :
          TokenList).map (fun t => .ok (some t)) ++ₛ Stream'.const (.ok none) := by
  intro text m
  let e := (rescanning.passAll text).feed [.letter 98]
  obtain ⟨⟨m', hrun, henv, hreadings⟩, -⟩ := scantokens_rereads (x := ofDepth 20 1) (m := m)
    (e := e) (.cs "scantokens") rfl escapeChar_rescanning spells_rescanning rfl rfl
    legible_symbols (Machine.Yields.of_feed rescanning text [.letter 98]) (by decide) (by decide)
  have hrest : Source.readings m.env.lexicon e.input =
      Stream'.cons (.ok (some (.letter 98))) (Stream'.const (.ok none)) := by
    rw [show e.input = Source.feed {} [.letter 98] from rfl, Source.readings_feed,
      Source.readings_of_nil rfl]
    rfl
  refine ⟨m', hrun, henv, hreadings.trans ?_⟩
  rw [hrest]
  rfl

/-- The tokens of the braced text are not what is read next: behind the first symbol, a space
    is. -/
theorem scantokens_adds_space :
    let text := .char 123 .beginGroup :: symbols ++ [.char 125 .endGroup]
    let m := rescanning.feed (text ++ [.letter 98])
    let e := (rescanning.passAll text).feed [.letter 98]
    m.Yields text e ∧ m.env.escapeChar = some (.ofChar '\\') ∧ m.env.lexicon.Spells '\\' ∧
    (∀ t ∈ symbols, t.Legible m.env.catcode) ∧
    ∃ m', (ofDepth 20 1).perform (.expandable .scantokens) (.cs "scantokens") m = .ok () m' ∧
      Source.readings m.env.lexicon m'.input ≠
        symbols.map (fun t => .ok (some t)) ++ₛ Source.readings m.env.lexicon e.input := by
  intro text m e
  have hread : m.Yields text e := Machine.Yields.of_feed rescanning text [.letter 98]
  have hbalanced : Balanced symbols :=
    balanced_of_not_brace fun t ht => (legible_symbols t ht).not_brace
  obtain ⟨m', hrun, -, hinput⟩ := exists_expandScanTokens (x := ofDepth 20 1) (m := m) (e := e)
    rfl rfl rfl hbalanced hread (by decide) (by decide)
  refine ⟨hread, escapeChar_rescanning, spells_rescanning, legible_symbols, m', hrun, ?_⟩
  rw [hinput, show m.env.escapeChar = _ from escapeChar_rescanning,
    show Source.readings m.env.lexicon _ = _ from
      Source.readings_rescannedText spells_rescanning legible_symbols e.input "scantokens"]
  intro heq
  have hsecond : (Except.ok (some Token.space) : Source.Result) = .ok (some (.letter 97)) :=
    congrArg (Stream'.get · 1) heq
  exact absurd hsecond (by decide)

end Expander

end TexEngine
