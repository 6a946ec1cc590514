/-
  TexEngine.Proofs.Engine.Quoting

  Quoted texts.  A text is quoted by \noexpand in front of each of its commands.  Reading
  a quoted text with expansion gives the text back, whatever its commands mean: the ones
  that could be expanded are marked when \noexpand is expanded, and the next reading finds
  the mark and removes it; the others are read as they are.

  Two readers expand what they read, that of macro bodies and that of general texts.  They
  differ only in what they do with a token that is not expanded, so each round of a quoted
  text is followed for both of them.  An expansion of \noexpand can fail in one way: if
  there is no room for the token that is put back, or for one more level of expansion.
-/
import TexEngine.Engine.Definition
import TexEngine.Proofs.Engine.Arguments
import TexEngine.Proofs.Engine.ConditionalTree
import TexEngine.Proofs.Engine.Upcoming

namespace TexEngine

open Eng

/-- A text with \noexpand in front of each command. -/
def TokenList.quoted (ts : TokenList) : TokenList :=
  ts.flatMap fun t => if t.isCommand then [.cs "noexpand", t] else [t]

namespace TokenList

theorem quoted_cons_of_isCommand {t : Token} (h : t.isCommand = true) (ts : TokenList) :
    TokenList.quoted (t :: ts) = .cs "noexpand" :: t :: TokenList.quoted ts := by
  simp [TokenList.quoted, h]

theorem quoted_cons_of_not_isCommand {t : Token} (h : t.isCommand = false) (ts : TokenList) :
    TokenList.quoted (t :: ts) = t :: TokenList.quoted ts := by
  simp [TokenList.quoted, h]

end TokenList

/-- The token is neither a brace nor a parameter character. -/
structure Token.Ordinary (t : Token) : Prop where
  not_open : t.hasCat .beginGroup = false
  not_close : t.hasCat .endGroup = false
  not_parameter : t.hasCat .parameter = false

instance (t : Token) : Decidable t.Ordinary :=
  decidable_of_iff
    (t.hasCat .beginGroup = false ∧ t.hasCat .endGroup = false ∧ t.hasCat .parameter = false)
    ⟨fun h => ⟨h.1, h.2.1, h.2.2⟩, fun h => ⟨h.not_open, h.not_close, h.not_parameter⟩⟩

/-! ## The limits of an expansion -/

namespace Source

/-- Reading does not add to the tokens that wait. -/
theorem pending_nextFrom_le (lex : Lexicon) (src : Source) (closed : List StreamId)
    (streams : List Stream) : (nextFrom lex src closed streams).source.pending ≤ src.pending := by
  fun_induction nextFrom lex src closed streams with
  | case2 closed s rest t ts hpushed => exact Nat.sub_le _ _
  | case5 closed s rest hpushed s' hread ih => exact ih
  | _ => exact Nat.le_refl _

end Source

namespace Machine

/-- A token that is put back fits into the input, and there is a level for an expansion. -/
structure HasRoom (m : Machine) (depth : Nat) : Prop where
  level : 0 < depth
  pending : m.input.pending < m.limits.pushback

theorem HasRoom.of_token? {m m₁ : Machine} {depth : Nat} {t? : Option Token}
    (hroom : m.HasRoom depth) (hm : m.marked = none) (h : token? m = .ok t? m₁) :
    m₁.HasRoom depth := by
  obtain ⟨-, rfl⟩ := token?_eq_ok hm h
  exact ⟨hroom.level, (Source.pending_nextFrom_le ..).trans_lt hroom.pending⟩

end Machine

namespace Eng

variable {α β : Type} {room room' : Prop} {r : EStateM.Result Fault Machine α}
  {act : Eng α} {f : α → Eng β} {a : α} {b : β} {m n e : Machine}

/-- The result is the given one.  Only if there is no room, it can be an error instead, which
    says that a limit is exceeded. -/
def GivesIfRoom (room : Prop) (r : EStateM.Result Fault Machine α) (a : α) (e : Machine) : Prop :=
  r = .ok a e ∨ ¬ room ∧ ∃ err m', r = .error (.tex err) m' ∧ err.kind = .recursionTooDeep

namespace GivesIfRoom

theorem mono (h : GivesIfRoom room' r a e) (hroom : room → room') : GivesIfRoom room r a e :=
  h.imp_right fun ⟨hno, herr⟩ => ⟨fun hr => hno (hroom hr), herr⟩

theorem bind (h : GivesIfRoom room (act m) a n) (h' : GivesIfRoom room (f a n) b e) :
    GivesIfRoom room ((act >>= f) m) b e := by
  rcases h with h | ⟨hno, err, m', h, hkind⟩
  · rwa [bind_of_ok h]
  · exact .inr ⟨hno, err, m', bind_of_error h f, hkind⟩

end GivesIfRoom

end Eng

/-! ## Marking a token -/

/-- The token has a meaning that could be expanded. -/
def Machine.canExpand (m : Machine) (t : Token) : Bool :=
  t.isCommand && (meaningIn m.env t).any (·.isExpandable)

/-- Reading removes the mark. -/
theorem Eng.marked_of_token? {m m₁ : Machine} {t? : Option Token} (h : token? m = .ok t? m₁) :
    m₁.marked = none := by
  obtain ⟨-, frozen, es, rfl⟩ := Machine.exists_of_token? h
  rfl

/-- The machine once the token read last has been put back by \noexpand and read again. -/
def Machine.reread (m : Machine) (t : Token) : Machine :=
  { m with frozen := m.canExpand t }

namespace Expander

variable {x : Expander} {m m₁ m₂ n e : Machine} {t close : Token} {ts seen : TokenList}

theorem markNext_apply (h : token? m = .ok (some t) m₁) :
    markNext m = .ok ()
      (Machine.feed { m₁ with marked := if m₁.canExpand t then some t else none } [t]) := by
  have hunmarked : m₁.marked = none := marked_of_token? h
  unfold markNext
  rw [bind_of_ok h, bind_of_ok (expect_some ..)]
  cases hcommand : t.isCommand with
  | false =>
    have hcan : m₁.canExpand t = false := by simp [Machine.canExpand, hcommand]
    rw [hcan, if_neg Bool.false_ne_true, ← hunmarked]
    exact push_apply m₁ (by simp)
  | true =>
    have hcan : m₁.canExpand t = (meaningIn m₁.env t).any (·.isExpandable) := by
      simp [Machine.canExpand, hcommand]
    rw [hcan]
    simp only [if_true]
    rw [bind_of_ok (meaning?_apply t m₁)]
    cases (meaningIn m₁.env t).any (·.isExpandable) with
    | true => exact push_apply { m₁ with marked := some t } (by simp)
    | false =>
      rw [if_neg Bool.false_ne_true, ← hunmarked]
      exact push_apply m₁ (by simp)

/-- The token that was put back is read again, and its mark is noticed. -/
theorem token?_marked (hm : m.marked = none) (h : token? m = .ok (some t) m₁) :
    token? (Machine.feed { m₁ with marked := if m₁.canExpand t then some t else none } [t]) =
      .ok (some t) (m₁.reread t) := by
  have hunmarked : m₁.marked = none := marked_of_token? h
  have hpass : ∀ mark : Option Token, (Machine.pass { m₁ with marked := mark } t).feed [] =
      { m₁ with marked := none, frozen := mark.isSome && mark == some t } := by
    intro mark
    show { m₁.feed [] with marked := none, frozen := mark.isSome && mark == some t } = _
    rw [feed_nil_of_token? hm h]
  rw [token?_feed, hpass, Machine.reread, ← hunmarked]
  cases m₁.canExpand t <;> simp [hunmarked]

/-- A token that was put back by \noexpand is not expanded. -/
theorem expandItem_reread (x : Expander) (m : Machine) (t : Token) :
    x.expandItem t (m.reread t) = .ok .plain (m.reread t) := by
  unfold expandItem
  rw [bind_of_ok (isFrozen_apply _)]
  by_cases hplain : ((m.reread t).frozen || !t.isCommand) = true
  · rw [if_pos hplain]
    rfl
  · rw [if_neg hplain, bind_of_ok (meaning?_apply t _)]
    -- The token is a command without a mark, so its meaning cannot be expanded.
    have hany : (meaningIn m.env t).any (·.isExpandable) = false := by
      simp_all [Machine.reread, Machine.canExpand]
    have henv : (m.reread t).env = m.env := rfl
    rw [henv]
    cases hmeaning : meaningIn m.env t with
    | none => rfl
    | some μ =>
      rw [hmeaning, Option.any_some] at hany
      cases μ <;> first | rfl | cases hany

theorem expandItem_of_not_isCommand (x : Expander) (m : Machine) (h : t.isCommand = false) :
    x.expandItem t m = .ok .plain m := by
  unfold expandItem
  rw [bind_of_ok (isFrozen_apply m), h]
  simp only [Bool.not_false, Bool.or_true, if_true]
  rfl

/-- An expansion of \noexpand puts the next token back, quoted, if there is room. -/
theorem expand_noexpand (fuel depth : Nat) (hm : m.marked = none)
    (h : token? m = .ok (some t) m₁) (u : Token) :
    ∃ n, token? n = .ok (some t) (m₁.reread t) ∧ GivesIfRoom (m.HasRoom depth)
      ((ofDepth fuel depth).expand (.expandable .noexpand) u m) () n := by
  refine ⟨_, token?_marked hm h, ?_⟩
  cases depth with
  | zero =>
    rw [ofDepth_zero]
    exact .inr ⟨fun hroom => absurd hroom.level (Nat.lt_irrefl 0), _, _, rfl, rfl⟩
  | succ depth =>
    rw [ofDepth_succ]
    have hmark : (ofDepth fuel depth).perform (.expandable .noexpand) u m = _ :=
      markNext_apply h
    generalize hn : Machine.feed { m₁ with marked := _ } [t] = n at hmark
    have hpending : n.input.pending = m₁.input.pending + 1 := hn ▸ Machine.pending_feed _ [t]
    have hlimits : n.limits = m₁.limits := by
      rw [← hn]
      rfl
    show GivesIfRoom _ (blame u (_ >>= fun _ => _) m) () n
    unfold blame
    rw [bind_of_ok hmark, bind_of_ok (get_apply n)]
    by_cases hover : n.input.pending > n.limits.pushback
    · refine .inr ⟨fun hroom => ?_, ?_⟩
      · have hroom₁ := (hroom.of_token? hm h).pending
        rw [hpending, hlimits] at hover
        omega
      · rw [if_pos hover]
        exact ⟨_, _, rfl, rfl⟩
    · rw [if_neg hover]
      exact .inl rfl

/-! ## Rounds of the readers -/

/-- One round of a reader that expands; `plain` treats the tokens that are not expanded. -/
def textStep (x : Expander)
    (plain : Nat × TokenList → Token → Eng (Step (Nat × TokenList) TokenList))
    (s : Nat × TokenList) : Eng (Step (Nat × TokenList) TokenList) := do
  let t ← expect (← token?) .unterminatedGroup []
  match ← x.expandItem t with
  | .final ts => return .again (s.1, ts.reverse ++ s.2)
  | .expanded => return .again s
  | .plain => plain s t

/-- What is done with a token of a general text. -/
def balancedPlain (s : Nat × TokenList) (t : Token) : Eng (Step (Nat × TokenList) TokenList) :=
  match braceDepth? s.1 t with
  | none => return .done s.2.reverse
  | some depth => return .again (depth, t :: s.2)

/-- What is done with a token of the body of a macro. -/
def bodyPlain (params : Nat) (s : Nat × TokenList) (t : Token) :
    Eng (Step (Nat × TokenList) TokenList) := do
  if t.hasCat .parameter then return .again (s.1, (← scanParameter params) :: s.2)
  else balancedPlain s t

theorem expandBalanced_eq_iterate (x : Expander) :
    x.expandBalanced = iterate (x.textStep balancedPlain) x.fuel (0, []) := rfl

theorem scanBody_true_eq_iterate (x : Expander) (params : Nat) :
    x.scanBody params true = iterate (x.textStep (bodyPlain params)) x.fuel (0, []) := rfl

/-- Ordinary tokens are collected, and a closing brace ends the text. -/
structure Collects (plain : Nat × TokenList → Token → Eng (Step (Nat × TokenList) TokenList)) :
    Prop where
  ordinary : ∀ {t : Token}, t.Ordinary → ∀ seen m,
    plain (0, seen) t m = .ok (.again (0, t :: seen)) m
  close : ∀ {t : Token}, t.hasCat .endGroup = true → ∀ seen m,
    plain (0, seen) t m = .ok (.done seen.reverse) m

theorem collects_balancedPlain : Collects balancedPlain where
  ordinary {t} ht seen m := by
    rw [balancedPlain, braceDepth?_of_not_brace ht.not_open ht.not_close]
    rfl
  close {t} ht seen m := by
    obtain ⟨c, rfl⟩ := hasCat_iff.mp ht
    rfl

theorem collects_bodyPlain (params : Nat) : Collects (bodyPlain params) where
  ordinary {t} ht seen m := by
    rw [bodyPlain, ht.not_parameter]
    exact collects_balancedPlain.ordinary ht seen m
  close {t} ht seen m := by
    obtain ⟨c, rfl⟩ := hasCat_iff.mp ht
    rfl

section Rounds

variable {plain : Nat × TokenList → Token → Eng (Step (Nat × TokenList) TokenList)}
  {s : Nat × TokenList}

/-- What is not expanded is left to `plain`. -/
theorem textStep_of_plain (h : token? m = .ok (some t) m₁)
    (hitem : x.expandItem t m₁ = .ok .plain m₁) : x.textStep plain s m = plain s t m₁ := by
  unfold textStep
  rw [bind_of_ok h, bind_of_ok (expect_some ..), bind_of_ok hitem]

/-- A round on a token that is not expanded adds it to the text. -/
theorem textStep_ordinary (hplain : Collects plain) (ht : t.Ordinary)
    (h : token? m = .ok (some t) m₁) (hitem : x.expandItem t m₁ = .ok .plain m₁)
    (seen : TokenList) : x.textStep plain (0, seen) m = .ok (.again (0, t :: seen)) m₁ := by
  rw [textStep_of_plain h hitem]
  exact hplain.ordinary ht seen m₁

/-- The closing brace ends the text. -/
theorem textStep_close (hplain : Collects plain) (hclose : close.hasCat .endGroup = true)
    (h : token? m = .ok (some close) m₁) (seen : TokenList) :
    x.textStep plain (0, seen) m = .ok (.done seen.reverse) m₁ := by
  have hcommand : close.isCommand = false := not_isCommand_of_hasCat hclose (by decide)
  rw [textStep_of_plain h (expandItem_of_not_isCommand x m₁ hcommand)]
  exact hplain.close hclose seen m₁

variable (plain s) in
/-- A round on \noexpand adds nothing to the text, and quotes the next token. -/
theorem textStep_noexpand (fuel depth : Nat) (hm : m.marked = none)
    (hnoexpand : m.env.meaning? (.cs "noexpand") = some (.expandable .noexpand))
    (h : token? m = .ok (some (.cs "noexpand")) m₁) (ht : token? m₁ = .ok (some t) m₂) :
    ∃ n, token? n = .ok (some t) (m₂.reread t) ∧ GivesIfRoom (m₁.HasRoom depth)
      ((ofDepth fuel depth).textStep plain s m) (.again s) n := by
  have hfrozen : m₁.frozen = false := by
    rw [(token?_eq_ok hm h).2]
    rfl
  have hmeaning : meaningIn m₁.env (.cs "noexpand") = some (.expandable .noexpand) := by
    rw [Machine.env_of_token? h]
    exact hnoexpand
  obtain ⟨n, hread, hexpand⟩ := expand_noexpand fuel depth (marked_of_token? h) ht (.cs "noexpand")
  have hitem : GivesIfRoom (m₁.HasRoom depth)
      ((ofDepth fuel depth).expandItem (.cs "noexpand") m₁) .expanded n := by
    unfold expandItem
    rw [bind_of_ok (isFrozen_apply m₁), hfrozen]
    refine (congrArg (GivesIfRoom _ · _ _) (bind_of_ok (meaning?_apply _ m₁) _)).mpr ?_
    rw [hmeaning]
    exact hexpand.bind (.inl rfl)
  refine ⟨n, hread, ?_⟩
  unfold textStep
  rw [bind_of_ok h, bind_of_ok (expect_some ..)]
  exact hitem.bind (.inl rfl)

/-- A quoted text is read as the text itself, by rounds that are two for each command and one
    for every other token. -/
theorem iterate_textStep_quoted (hplain : Collects plain) (fuel depth : Nat)
    (hts : ∀ t ∈ ts, t.Ordinary) (hclose : close.hasCat .endGroup = true)
    (hnoexpand : m.env.meaning? (.cs "noexpand") = some (.expandable .noexpand))
    (hm : m.marked = none) (hread : m.Yields (TokenList.quoted ts ++ [close]) e)
    (hn : token? n = token? m) (k : Nat) :
    GivesIfRoom (m.HasRoom depth) (iterate ((ofDepth fuel depth).textStep plain)
      (k + 1 + (TokenList.quoted ts).length) (0, seen) n) (seen.reverse ++ ts) e := by
  induction ts generalizing m n seen with
  | nil =>
    obtain ⟨m₁, ht, hrest⟩ := hread.exists_of_cons
    cases hrest
    have hround := textStep_close (x := ofDepth fuel depth) hplain hclose (hn.trans ht) seen
    rw [List.append_nil]
    exact .inl (iterate_of_done hround k)
  | cons t ts ih =>
    rw [List.forall_mem_cons] at hts
    obtain ⟨hordinary, hts⟩ := hts
    have hlist : seen.reverse ++ t :: ts = (t :: seen).reverse ++ ts := by simp
    rw [hlist]
    cases hcommand : t.isCommand with
    | false =>
      rw [TokenList.quoted_cons_of_not_isCommand hcommand] at hread ⊢
      obtain ⟨m₁, ht, hrest⟩ := hread.exists_of_cons
      have hround := textStep_ordinary hplain hordinary (hn.trans ht)
        (expandItem_of_not_isCommand (ofDepth fuel depth) m₁ hcommand) seen
      have hmarked : m₁.marked = none := marked_of_token? ht
      have hmeaning : m₁.env.meaning? (.cs "noexpand") = some (.expandable .noexpand) := by
        rw [Machine.env_of_token? ht, hnoexpand]
      rw [List.length_cons, ← Nat.add_assoc, iterate_of_again hround]
      exact (ih hts hmeaning hmarked hrest rfl).mono fun hroom => hroom.of_token? hm ht
    | true =>
      rw [TokenList.quoted_cons_of_isCommand hcommand] at hread ⊢
      obtain ⟨m₁, hfirst, hrest⟩ := hread.exists_of_cons
      obtain ⟨m₂, ht, hrest⟩ := hrest.exists_of_cons
      have hmarked : m₁.marked = none := marked_of_token? hfirst
      have hmarked' : m₂.marked = none := marked_of_token? ht
      have hmeaning : m₂.env.meaning? (.cs "noexpand") = some (.expandable .noexpand) := by
        rw [Machine.env_of_token? ht, Machine.env_of_token? hfirst, hnoexpand]
      -- The first round quotes the token, and the second one takes it as it is.
      obtain ⟨n₁, hback, hround⟩ := textStep_noexpand plain (0, seen) fuel depth hm hnoexpand
        hfirst ht
      have hround' := textStep_ordinary hplain hordinary hback
        (expandItem_reread (ofDepth fuel depth) m₂ t) seen
      have hgoon : token? (m₂.reread t) = token? m₂ :=
        (token?_ready (m₂.reread t) hmarked').symm.trans (token?_ready m₂ hmarked')
      rw [List.length_cons, List.length_cons, ← Nat.add_assoc, ← Nat.add_assoc]
      have hstart : (ofDepth fuel depth).textStep plain (0, seen) n =
          (ofDepth fuel depth).textStep plain (0, seen) m := bind_congr_left hn _
      refine GivesIfRoom.bind (n := n₁) (a := .again (0, seen)) ?_ ?_
      · rw [hstart]
        exact hround.mono fun hroom => hroom.of_token? hm hfirst
      · show GivesIfRoom _ (iterate _ _ (0, seen) n₁) _ _
        rw [iterate_of_again hround']
        exact (ih hts hmeaning hmarked' hrest hgoon).mono
          fun hroom => (hroom.of_token? hm hfirst).of_token? hmarked ht

end Rounds

/-! ## Quoted texts -/

/-- Quoted tokens are not expanded.  Where \noexpand has its primitive meaning and no token is
    marked, both readers that expand get the text back from a quoted text and a closing brace,
    whatever its commands mean, and end where reading without expansion ends.  Only if there is
    no room for an expansion, they may fail because a limit is exceeded.  No conditional is
    opened or closed. -/
theorem noexpand_quotes (fuel depth params : Nat) (hm : m.marked = none)
    (hnoexpand : m.env.meaning? (.cs "noexpand") = some (.expandable .noexpand))
    (hts : ∀ t ∈ ts, t.Ordinary) (hclose : close.hasCat .endGroup = true)
    (hread : m.Yields (TokenList.quoted ts ++ [close]) e)
    (hfuel : (TokenList.quoted ts).length < fuel) :
    GivesIfRoom (m.HasRoom depth) ((ofDepth fuel depth).scanBody params true m) ts e ∧
      GivesIfRoom (m.HasRoom depth) ((ofDepth fuel depth).expandBalanced m) ts e ∧
      e.env.conditionals = m.env.conditionals := by
  obtain ⟨k, hk⟩ : ∃ k, fuel = k + 1 + (TokenList.quoted ts).length :=
    ⟨fuel - 1 - (TokenList.quoted ts).length, by omega⟩
  have hrounds : (ofDepth fuel depth).fuel = k + 1 + (TokenList.quoted ts).length :=
    (fuel_ofDepth fuel depth).trans hk
  refine ⟨?_, ?_, by rw [hread.env_eq]⟩
  · rw [scanBody_true_eq_iterate, hrounds]
    exact iterate_textStep_quoted (collects_bodyPlain params) fuel depth hts hclose hnoexpand hm
      hread rfl k
  · rw [expandBalanced_eq_iterate, hrounds]
    exact iterate_textStep_quoted collects_balancedPlain fuel depth hts hclose hnoexpand hm
      hread rfl k

/-- A machine in which \noexpand, \the and \else are primitives and \a is a protected macro.
    All other control sequences are undefined. -/
def quoting : Machine where
  env :=
    { codes := (((∅ : Std.TreeMap String Meaning).insert "the" (.expandable .the)).insert
        "else" (.conditional .orElse)).insert "a"
          (.defined { body := [.cs "a"], isProtected := true })
        |>.insert "noexpand" (.expandable .noexpand) }

/-- Commands of all kinds, two equal ones among them. -/
def commands : TokenList :=
  [.cs "the", .cs "noexpand", .cs "else", .cs "else", .letter 97, .cs "a", .cs "b"]

theorem noexpand_quotes_commands :
    let text := TokenList.quoted commands ++ [.char 125 .endGroup]
    let m := quoting.feed (text ++ [.letter 98])
    let e := (quoting.passAll text).feed [.letter 98]
    (ofDepth 20 1).scanBody 0 true m = .ok commands e ∧
      (ofDepth 20 1).expandBalanced m = .ok commands e := by
  intro text m e
  have hmeaning : m.env.meaning? (.cs "noexpand") = some (.expandable .noexpand) := by
    show quoting.env.meaning? (.cs "noexpand") = _
    simp [quoting, Env.meaning?, Env.code?, Token.isCs, Token.name]
  have hroom : m.HasRoom 1 := ⟨by decide, by decide⟩
  have hordinary : ∀ t ∈ commands, t.Ordinary := by decide
  have hquotes := noexpand_quotes 20 1 0 (m := m) (e := e) rfl hmeaning hordinary rfl
    (Machine.Yields.of_feed quoting text [.letter 98]) (by decide)
  exact ⟨hquotes.1.resolve_right fun h => h.1 hroom,
    hquotes.2.1.resolve_right fun h => h.1 hroom⟩

end Expander

end TexEngine
