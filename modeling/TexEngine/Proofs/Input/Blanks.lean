/-
  TexEngine.Proofs.Input.Blanks

  Blank space is normalised.  Every space token is the same token, none comes first, and none
  follows another one, the \par of an empty line, or a control sequence that swallows blanks:
  one whose name begins with a letter or a blank, or is empty.  Categories may change from
  token to token, so it matters which category the first character of a name had when it was
  read.  The token does not show this; `Origin` records what in the line a token was read
  from.

  The invariant is about the state of the lexer.  In the middle of a line that has not ended,
  the last token was one that a space token may follow; all other tokens leave a state in
  which blanks and the end of the line give no space token.
-/
import Mathlib.Data.List.Chain
import TexEngine.Proofs.Input.Gauge
import TexEngine.Proofs.Input.Reads

namespace TexEngine

open LineLexer

/-- What a lexeme is read from: an escape character with the name behind it, any other
    character, an empty line, the end of a line, a blank, or a character that is not allowed.
    `first` is the category of the first character of the name, if it has one. -/
inductive Origin where
  | name (codes : List CharCode) (first : Option Catcode)
  | character (c : CharCode) (k : Catcode)
  | emptyLine
  | lineEnd
  | blank
  | invalid (c : CharCode)
  deriving DecidableEq, Repr

namespace Origin

/-- The token that is read; there is none for a character that is not allowed. -/
def token? : Origin → Option Token
  | name codes _ => some (.cs (CharCode.listText codes))
  | character c k => some (.char c k)
  | emptyLine => some (.cs "par")
  | lineEnd | blank => some .space
  | invalid _ => none

/-- The lexeme that is read. -/
def lexeme : Origin → Lexeme
  | invalid c => .invalid c
  | name codes _ => .token (.cs (CharCode.listText codes))
  | character c k => .token (.char c k)
  | emptyLine => .token (.cs "par")
  | lineEnd | blank => .token .space

theorem token?_lexeme (o : Origin) : o.lexeme.token? = o.token? := by
  cases o <;> rfl

/-- Blank space behind the token counts: the token is a character, or a control sequence with
    a name that begins neither with a letter nor with a blank. -/
def Opens : Origin → Prop
  | name _ first => ∃ k ∈ first, k ≠ .letter ∧ k ≠ .space
  | character _ k => k ≠ .space
  | _ => False

/-- The category of a character that is a token by itself. -/
def Regular : Origin → Prop
  | character _ k =>
    k ∉ ([.escape, .endOfLine, .ignored, .space, .comment, .invalid] : List Catcode)
  | _ => True

end Origin

/-! ## Lines -/

namespace LineLexer

/-- The origin of the first lexeme of the rest of a line. -/
def origin? (cat : CharCode → Catcode) (state : LineState) (cs : List CharCode) : Option Origin :=
  match _h : unhat cat cs with
  | [] => none
  | c :: rest =>
    match cat c with
    | .escape => some (.name (name cat rest).1 ((name cat rest).1.head?.map cat))
    | .endOfLine =>
      match state with
      | .newLine => some .emptyLine
      | .midLine => some .lineEnd
      | .skipBlanks => none
    | .space => if state = .midLine then some .blank else origin? cat state rest
    | .ignored => origin? cat state rest
    | .comment => none
    | .invalid => some (.invalid c)
    | k => some (.character c k)
termination_by cs.length
decreasing_by all_goals exact length_lt_of_unhat _h

variable {cat : CharCode → Catcode}

theorem origin?_of_unhat_nil {state : LineState} {cs : List CharCode}
    (h : unhat cat cs = []) : origin? cat state cs = none := by
  rw [origin?.eq_def]
  split
  · rfl
  · rename_i h'
    rw [h] at h'
    contradiction

theorem origin?_of_unhat_cons {state : LineState} {cs rest : List CharCode} {c : CharCode}
    (h : unhat cat cs = c :: rest) :
    origin? cat state cs =
      match cat c with
      | .escape => some (.name (name cat rest).1 ((name cat rest).1.head?.map cat))
      | .endOfLine =>
        match state with
        | .newLine => some .emptyLine
        | .midLine => some .lineEnd
        | .skipBlanks => none
      | .space => if state = .midLine then some .blank else origin? cat state rest
      | .ignored => origin? cat state rest
      | .comment => none
      | .invalid => some (.invalid c)
      | k => some (.character c k) := by
  conv_lhs => rw [origin?.eq_def]
  cases hc : cat c <;> grind

/-- In the middle of a line the name of a control sequence is one character, which is neither
    a letter nor a blank. -/
theorem opens_of_name_midLine {cs : List CharCode} (h : (name cat cs).2.1 = .midLine) :
    (Origin.name (name cat cs).1 ((name cat cs).1.head?.map cat)).Opens := by
  unfold name at h ⊢
  cases hcs : unhat cat cs with
  | nil =>
    rw [hcs] at h
    contradiction
  | cons c rest =>
    rw [hcs] at h
    dsimp only at h ⊢
    split at h
    · contradiction
    · rename_i hletter
      rw [if_neg hletter]
      split at h
      · contradiction
      · rename_i hspace
        exact ⟨cat c, rfl, hletter, hspace⟩

end LineLexer

/-- What a cursor finds has an origin.  A space token is only found in the middle of a line,
    and in the middle of a line the lexeme found last is one that blanks may follow. -/
structure Cursor.Finds (cat : CharCode → Catcode) (cur : Cursor) (x : Lexeme) (cur' : Cursor)
    (o : Origin) : Prop where
  origin : origin? cat cur.state cur.rest = some o
  lexeme : o.lexeme = x
  regular : o.Regular
  unfinished : cur.rest ≠ []
  space : o.token? = some .space → cur.state = .midLine
  midLine : cur'.state = .midLine → cur'.rest ≠ [] →
    o.Opens ∨ o.token? = none ∧ cur.state = .midLine

namespace Cursor

variable {cat : CharCode → Catcode}

theorem rest_ne_nil_of_lt {cur : Cursor} (h : cur.pos < cur.line.length) : cur.rest ≠ [] := by
  rw [rest_of_lt h]
  exact List.cons_ne_nil _ _

/-- Where a character is passed over, the state stays, and so does what can be found. -/
theorem Finds.passed {cur after cur' : Cursor} {x : Lexeme} {o : Origin}
    (horigin : origin? cat cur.state cur.rest = origin? cat after.state after.rest)
    (hstate : after.state = cur.state) (hrest : cur.rest ≠ [])
    (h : after.Finds cat x cur' o) : cur.Finds cat x cur' o :=
  ⟨horigin ▸ h.origin, h.lexeme, h.regular, hrest, hstate ▸ h.space, hstate ▸ h.midLine⟩

theorem next?_finds (cat : CharCode → Catcode) (cur : Cursor) :
    match cur.next? cat with
    | (some x, cur') => ∃ o, cur.Finds cat x cur' o
    | (none, _) => origin? cat cur.state cur.rest = none := by
  -- Nothing is found behind a character that is passed over but what is found from there on.
  have hpassed : ∀ {cur after : Cursor}, cur.rest ≠ [] → after.state = cur.state →
      origin? cat cur.state cur.rest = origin? cat after.state after.rest →
      (match after.next? cat with
        | (some x, cur') => ∃ o, after.Finds cat x cur' o
        | (none, _) => origin? cat after.state after.rest = none) →
      match after.next? cat with
        | (some x, cur') => ∃ o, cur.Finds cat x cur' o
        | (none, _) => origin? cat cur.state cur.rest = none := by
    intro cur after hrest hstate horigin hfound
    split at hfound
    · obtain ⟨o, ho⟩ := hfound
      exact ⟨o, ho.passed horigin hstate hrest⟩
    · rwa [horigin]
  fun_induction Cursor.next? cat cur with
  | case1 cur h next hnext c after hc t cur' hname =>
    obtain ⟨ht, hstate, hrest⟩ := after.controlSequence_spec cat
    rw [hname] at ht hstate hrest
    dsimp only at ht hstate hrest
    refine ⟨.name (name cat after.rest).1 ((name cat after.rest).1.head?.map cat),
      ?_, by rw [ht]; rfl, True.intro, rest_ne_nil_of_lt h, nofun, ?_⟩
    · rw [origin?_of_unhat_cons (unhat_rest hnext), hc]
    · exact fun hmid _ => .inl (opens_of_name_midLine (hstate.symm.trans hmid))
  | case2 cur h next hnext c after hc hstate =>
    refine ⟨.emptyLine, ?_, rfl, True.intro, rest_ne_nil_of_lt h, nofun,
      fun _ hrest => absurd (rest_finish after) hrest⟩
    rw [origin?_of_unhat_cons (unhat_rest hnext), hc, hstate]
  | case3 cur h next hnext c after hc hstate =>
    refine ⟨.lineEnd, ?_, rfl, True.intro, rest_ne_nil_of_lt h, fun _ => hstate,
      fun _ hrest => absurd (rest_finish after) hrest⟩
    rw [origin?_of_unhat_cons (unhat_rest hnext), hc, hstate]
  | case4 cur h next hnext c after hc hstate =>
    show origin? cat cur.state cur.rest = none
    rw [origin?_of_unhat_cons (unhat_rest hnext), hc, hstate]
  | case5 cur h next hnext c after hc hstate =>
    refine ⟨.blank, ?_, rfl, True.intro, rest_ne_nil_of_lt h, fun _ => hstate, nofun⟩
    rw [origin?_of_unhat_cons (unhat_rest hnext), hc]
    exact if_pos hstate
  | case6 cur h next hnext c after hc hstate ih =>
    have hsame : after.state = cur.state := state_advance_reduce cat cur
    have horigin : origin? cat cur.state cur.rest = origin? cat after.state after.rest := by
      rw [origin?_of_unhat_cons (unhat_rest hnext), hc, hsame]
      exact if_neg hstate
    exact hpassed (rest_ne_nil_of_lt h) hsame horigin ih
  | case7 cur h next hnext c after hc ih =>
    have hsame : after.state = cur.state := state_advance_reduce cat cur
    have horigin : origin? cat cur.state cur.rest = origin? cat after.state after.rest := by
      rw [origin?_of_unhat_cons (unhat_rest hnext), hc, hsame]
    exact hpassed (rest_ne_nil_of_lt h) hsame horigin ih
  | case8 cur h next hnext c after hc =>
    show origin? cat cur.state cur.rest = none
    rw [origin?_of_unhat_cons (unhat_rest hnext), hc]
  | case9 cur h next hnext c after hc =>
    have hsame : after.state = cur.state := state_advance_reduce cat cur
    refine ⟨.invalid c, ?_, rfl, True.intro, rest_ne_nil_of_lt h, nofun,
      fun hstate _ => .inr ⟨rfl, hsame.symm.trans hstate⟩⟩
    rw [origin?_of_unhat_cons (unhat_rest hnext), hc]
  | case10 cur h next hnext c after hescape hend hspace hignored hcomment hinvalid =>
    refine ⟨.character c (cat c), ?_, rfl, ?_, rest_ne_nil_of_lt h, ?_, fun _ _ => .inl hspace⟩
    · rw [origin?_of_unhat_cons (unhat_rest hnext)]
      split <;> first | contradiction | rfl
    · simp only [Origin.Regular, List.mem_cons, List.not_mem_nil, not_or]
      exact ⟨hescape, hend, hignored, hspace, hcomment, hinvalid, not_false⟩
    · intro htoken
      injection htoken with htoken
      injection htoken with _ hcat
      exact absurd hcat hspace
  | case11 cur h =>
    show origin? cat cur.state cur.rest = none
    rw [rest_of_le (Nat.le_of_not_lt h)]
    exact origin?_of_unhat_nil (unhat_nil cat)

end Cursor

/-! ## Streams -/

namespace Stream

/-- The origin of the next lexeme of a stream: it is in the rest of the line, or else in the
    first of the following lines that gives one. -/
def origin? (lex : Lexicon) (s : Stream) : Option Origin :=
  (LineLexer.origin? lex.catcode s.cursor.state s.cursor.rest).or <|
    if s.endInput then none
    else s.unreadLines.findSome? fun line =>
      LineLexer.origin? lex.catcode .newLine (lex.lineStart line).rest

/-- The origin of the token that a reading gives, if it gives one. -/
def tokenOrigin? (lex : Lexicon) (s : Stream) : Option Origin :=
  (s.origin? lex).filter fun o => o.token?.isSome

/-- `last?` is the origin of the last token that was read.  If the lexer is in the middle of a
    line that has not ended, blanks behind this token count. -/
def Normal (s : Stream) (last? : Option Origin) : Prop :=
  s.cursor.state = .midLine → s.cursor.rest ≠ [] → ∃ o ∈ last?, o.Opens

variable {lex : Lexicon} {s s' : Stream} {last? : Option Origin}

theorem origin?_of_sameLine {x : Lexeme} {cur : Cursor} {o : Origin}
    (h : s.cursor.Finds lex.catcode x cur o) : s.origin? lex = some o := by
  rw [origin?, h.origin]
  rfl

theorem origin?_of_next?_none {cur : Cursor} (h : (cur.next? lex.catcode).1 = none) :
    LineLexer.origin? lex.catcode cur.state cur.rest = none := by
  have hfinds := Cursor.next?_finds lex.catcode cur
  revert h hfinds
  cases cur.next? lex.catcode with
  | mk x? cur' =>
    rintro rfl
    exact id

theorem origin?_of_unread {line : List Char}
    (hline : (s.cursor.next? lex.catcode).1 = none) (hend : s.endInput = false)
    {skipped lines : List (List Char)} (hlines : s.unreadLines = skipped ++ line :: lines)
    (hskipped : ∀ l ∈ skipped, ((lex.lineStart l).next? lex.catcode).1 = none)
    {x : Lexeme} {cur : Cursor} {o : Origin}
    (h : (lex.lineStart line).Finds lex.catcode x cur o) : s.origin? lex = some o := by
  have hnone : skipped.findSome? (fun l =>
      LineLexer.origin? lex.catcode .newLine (lex.lineStart l).rest) = none := by
    rw [List.findSome?_eq_none_iff]
    exact fun l hl => origin?_of_next?_none (hskipped l hl)
  have hfound : LineLexer.origin? lex.catcode .newLine (lex.lineStart line).rest = some o :=
    h.origin
  rw [origin?, origin?_of_next?_none hline, Option.none_or, hend, if_neg Bool.false_ne_true,
    hlines, List.findSome?_append, hnone, Option.none_or, List.findSome?_cons, hfound]

theorem origin?_of_none (hline : (s.cursor.next? lex.catcode).1 = none)
    (hlines : s.endInput = false →
      ∀ l ∈ s.unreadLines, ((lex.lineStart l).next? lex.catcode).1 = none) :
    s.origin? lex = none := by
  rw [origin?, origin?_of_next?_none hline, Option.none_or]
  split
  · rfl
  · rename_i hend
    rw [List.findSome?_eq_none_iff]
    exact fun l hl => origin?_of_next?_none (hlines (by simpa using hend) l hl)

/-- What a reading does to the last token.  A token has an origin, and becomes the last one.
    A space token is given only where blanks behind the last token count. -/
structure Step (lex : Lexicon) (s : Stream) (last? : Option Origin) (result : StreamResult)
    (s' : Stream) : Prop where
  token : result.token? = (s.tokenOrigin? lex).bind Origin.token?
  regular : ∀ o ∈ s.tokenOrigin? lex, o.Regular
  space : ∀ o ∈ s.tokenOrigin? lex, o.token? = some .space → ∃ o' ∈ last?, o'.Opens
  normal : s'.Normal ((s.tokenOrigin? lex).or last?)

theorem step_of_finds {cur : Cursor} {x : Lexeme} {o : Origin} (horigin : s.origin? lex = some o)
    (h : cur.Finds lex.catcode x s'.cursor o)
    (hlast : cur.state = .midLine → ∃ o ∈ last?, o.Opens) :
    Step lex s last? (resultOf (some x)) s' := by
  have htoken : (resultOf (some x)).token? = o.token? := by
    rw [token?_resultOf, Option.bind_some, ← h.lexeme, o.token?_lexeme]
  cases ho : o.token? with
  | none =>
    -- An invalid character is no token, and leaves the state as it is.
    have hnone : s.tokenOrigin? lex = none := by
      rw [tokenOrigin?, horigin]
      simp [ho]
    refine ⟨by rw [htoken, ho, hnone]; rfl, by simp [hnone], by simp [hnone], ?_⟩
    rw [hnone, Option.none_or]
    intro hstate hrest
    rcases h.midLine hstate hrest with hopens | hkept
    · cases o <;> contradiction
    · exact hlast hkept.2
  | some t =>
    have hsome : s.tokenOrigin? lex = some o := by
      rw [tokenOrigin?, horigin]
      simp [ho]
    refine ⟨by rw [htoken, hsome]; rfl, ?_, ?_, ?_⟩
    · rw [hsome]
      rintro _ ⟨⟩
      exact h.regular
    · rw [hsome]
      rintro _ ⟨⟩ hspace
      exact hlast (h.space hspace)
    · rw [hsome, Option.some_or]
      intro hstate hrest
      rcases h.midLine hstate hrest with hopens | hkept
      · exact ⟨o, rfl, hopens⟩
      · rw [ho] at hkept
        exact nomatch hkept.1

theorem step_of_none {result : StreamResult} (horigin : s.origin? lex = none)
    (hresult : result.token? = none) (hrest : s'.cursor.rest = []) :
    Step lex s last? result s' := by
  have hnone : s.tokenOrigin? lex = none := by
    rw [tokenOrigin?, horigin]
    rfl
  exact ⟨by rw [hresult, hnone]; rfl, by simp [hnone], by simp [hnone],
    fun _ hne => absurd hrest hne⟩

theorem Reads.step {result : StreamResult} (h : Reads lex s result s') (hs : s.Normal last?) :
    Step lex s last? result s' := by
  cases h with
  | @sameLine x cur hread =>
    have hfinds := Cursor.next?_finds lex.catcode s.cursor
    rw [hread] at hfinds
    obtain ⟨o, ho⟩ := hfinds
    exact step_of_finds (origin?_of_sameLine ho) ho fun hstate => hs hstate ho.unfinished
  | @laterLine x cur r r' skipped lines line hline hend hreader hlines hskipped hread =>
    have hfinds := Cursor.next?_finds lex.catcode (lex.lineStart line)
    rw [hread] at hfinds
    obtain ⟨o, ho⟩ := hfinds
    have hunread : s.unreadLines = skipped ++ line :: lines :=
      (unreadLines_of_reader hreader).trans hlines
    -- At the beginning of a line, blanks give no token.
    exact step_of_finds (origin?_of_unread hline hend hunread hskipped ho) ho nofun
  | exhausted hline hlines hrest => exact step_of_none (origin?_of_none hline hlines) rfl hrest
  | @failed message cur r r' hline hend hreader hfailure hnext hlines hrest =>
    have hunread : s.unreadLines = [] :=
      (unreadLines_of_reader hreader).trans (Reader.lines_of_failure hfailure)
    exact step_of_none (origin?_of_none hline (by simp [hunread])) rfl hrest

end Stream

/-! ## Courses of readings -/

/-- What can happen to a stream: a reading, with any categories; other tokens in front of it;
    and the mark that it ends with the current line. -/
inductive StreamOp where
  | read (lex : Lexicon)
  | putBack (ts : TokenList)
  | endInput

namespace Stream

/-- The stream behind an operation. -/
def perform (s : Stream) : StreamOp → Stream
  | .read lex => (s.read lex).2
  | .putBack ts => { s with pushed := ts }
  | .endInput => { s with endInput := true }

/-- The token that an operation reads. -/
def token? (s : Stream) : StreamOp → Option Token
  | .read lex => (s.read lex).1.token?
  | _ => none

/-- The origin of the token that an operation reads. -/
def opOrigin? (s : Stream) : StreamOp → Option Origin
  | .read lex => s.tokenOrigin? lex
  | _ => none

/-- The tokens that are read, in order.  Characters that are not allowed do not count. -/
def tokens (s : Stream) : List StreamOp → TokenList
  | [] => []
  | op :: ops => (s.token? op).toList ++ (s.perform op).tokens ops

/-- The origins of these tokens. -/
def origins (s : Stream) : List StreamOp → List Origin
  | [] => []
  | op :: ops => (s.opOrigin? op).toList ++ (s.perform op).origins ops

/-- Tokens with their origins, the first of them behind a token with the origin `last?`. -/
structure NormalRun (last? : Option Origin) (ts : TokenList) (os : List Origin) : Prop where
  tokens : ts.map some = os.map Origin.token?
  regular : ∀ o ∈ os, o.Regular
  head : ∀ o ∈ os.head?, o.token? = some .space → ∃ o' ∈ last?, o'.Opens
  chain : os.IsChain fun o o' => o'.token? = some .space → o.Opens

theorem NormalRun.cons {last? : Option Origin} {t : Token} {o : Origin} {ts : TokenList}
    {os : List Origin} (h : NormalRun (some o) ts os) (htoken : o.token? = some t)
    (hregular : o.Regular) (hspace : o.token? = some .space → ∃ o' ∈ last?, o'.Opens) :
    NormalRun last? (t :: ts) (o :: os) where
  tokens := by rw [List.map_cons, List.map_cons, htoken, h.tokens]
  regular := List.forall_mem_cons.mpr ⟨hregular, h.regular⟩
  head := by
    rintro _ ⟨⟩
    exact hspace
  chain := by
    refine List.isChain_cons.mpr ⟨fun o' ho' hblank => ?_, h.chain⟩
    obtain ⟨_, ⟨⟩, hopens⟩ := h.head o' ho' hblank
    exact hopens

variable {s : Stream} {last? : Option Origin}

theorem normalRun (hs : s.Normal last?) (ops : List StreamOp) :
    NormalRun last? (s.tokens ops) (s.origins ops) := by
  induction ops generalizing s last? with
  | nil => exact ⟨rfl, by simp [origins], by simp [origins], .nil⟩
  | cons op ops ih =>
    -- Putting tokens back and ending the input read nothing; a reading gives one token and its
    -- origin, or neither.
    cases op with
    | putBack ts => exact ih hs
    | endInput => exact ih hs
    | read lex =>
      have hstep := (reads lex s).step hs
      have hrest := ih hstep.normal
      show NormalRun last? ((s.read lex).1.token?.toList ++ _) ((s.tokenOrigin? lex).toList ++ _)
      rw [hstep.token]
      cases ho : s.tokenOrigin? lex with
      | none =>
        rw [ho] at hrest
        exact hrest
      | some o =>
        rw [ho] at hrest
        obtain ⟨t, ht⟩ : ∃ t, o.token? = some t := by
          rw [tokenOrigin?, Option.filter_eq_some_iff] at ho
          exact Option.isSome_iff_exists.mp ho.2
        rw [Option.bind_some, ht]
        exact hrest.cons ht (hstep.regular o ho) (hstep.space o ho)

/-- A stream that was just opened is at the end of an empty line. -/
theorem normal_of_reader (r : Reader) : Normal { reader := some r } none :=
  fun _ hrest => absurd rfl hrest

end Stream

namespace Origin

variable {o : Origin}

theorem eq_space_of_hasCat (hregular : o.Regular) {t : Token} (ht : o.token? = some t)
    (hspace : t.hasCat .space = true) : t = .space := by
  cases o with
  | character c k =>
    injection ht with ht
    subst ht
    have hk : k = .space := by simpa [Token.hasCat] using hspace
    subst hk
    simp [Regular] at hregular
  | lineEnd => exact (Option.some.inj ht).symm
  | blank => exact (Option.some.inj ht).symm
  | invalid c => contradiction
  | name codes first =>
    injection ht with ht
    subst ht
    contradiction
  | emptyLine =>
    injection ht with ht
    subst ht
    contradiction

theorem not_mem_of_char (hregular : o.Regular) {c : CharCode} {k : Catcode}
    (ht : o.token? = some (.char c k)) :
    k ∉ ([.escape, .endOfLine, .ignored, .comment, .invalid] : List Catcode) := by
  cases o with
  | character c' k' =>
    obtain ⟨rfl, rfl⟩ : c' = c ∧ k' = k := by simpa [token?] using ht
    simp only [Regular, List.mem_cons, not_or] at hregular
    simp [hregular]
  | lineEnd | blank =>
    obtain ⟨-, rfl⟩ : (32 : CharCode) = c ∧ Catcode.space = k := by
      simpa [token?, Token.space] using ht
    simp
  | invalid c => contradiction
  | name codes first => simp [token?] at ht
  | emptyLine => simp [token?] at ht

theorem Opens.token?_ne (h : o.Opens) : o.token? ≠ some .space := by
  cases o with
  | character c k =>
    intro ht
    obtain ⟨-, hk⟩ : c = 32 ∧ k = .space := by simpa [token?, Token.space] using ht
    exact h hk
  | name codes first => simp [token?, Token.space]
  | _ => contradiction

end Origin

/-- Blank space is normalised, whatever the categories are at each reading.  `os` says from
    what in the lines the tokens were read.  Every token of category space is the space token.
    It does not come first, and it does not follow another space token, the \par of an empty
    line, or a control sequence whose name is empty or began with a letter or a blank when it
    was read.  No character token has a category that the lexer interprets. -/
theorem Stream.blanks_normalised (r : Reader) (ops : List StreamOp) :
    let s : Stream := { reader := some r }
    let ts := s.tokens ops
    let os := s.origins ops
    ts.map some = os.map Origin.token? ∧
    (∀ t ∈ ts, t.hasCat .space → t = .space) ∧
    ts.head? ≠ some .space ∧
    os.IsChain (fun o o' => o'.token? = some .space →
      o.token? ≠ some .space ∧ o ≠ .emptyLine ∧
      ∀ codes first, o = .name codes first → ∃ k ∈ first, k ≠ .letter ∧ k ≠ .space) ∧
    ∀ c k, .char c k ∈ ts →
      k ∉ ([.escape, .endOfLine, .ignored, .comment, .invalid] : List Catcode) := by
  intro s ts os
  have hrun : NormalRun none ts os := normalRun (normal_of_reader r) ops
  have horigin : ∀ t ∈ ts, ∃ o ∈ os, o.token? = some t := by
    intro t ht
    have hmem : some t ∈ os.map Origin.token? := hrun.tokens ▸ List.mem_map_of_mem ht
    exact List.mem_map.mp hmem
  refine ⟨hrun.tokens, ?_, ?_, ?_, ?_⟩
  · intro t ht hspace
    obtain ⟨o, ho, htoken⟩ := horigin t ht
    exact o.eq_space_of_hasCat (hrun.regular o ho) htoken hspace
  · intro hhead
    have hfirst := congrArg List.head? hrun.tokens
    rw [List.head?_map, List.head?_map, hhead] at hfirst
    obtain ⟨o, ho, htoken⟩ := Option.map_eq_some_iff.mp hfirst.symm
    obtain ⟨_, ⟨⟩, -⟩ := hrun.head o ho htoken
  · refine hrun.chain.imp fun o o' hopens hspace => ?_
    have ho := hopens hspace
    refine ⟨ho.token?_ne, ?_, ?_⟩
    · rintro rfl
      exact ho
    · rintro codes first rfl
      exact ho
  · intro c k ht
    obtain ⟨o, ho, htoken⟩ := horigin _ ht
    exact o.not_mem_of_char (hrun.regular o ho) htoken

end TexEngine
