/-
  TexEngine.Proofs.Engine.ConditionalTree

  Evaluation of nested conditionals.  A tree is text made of tokens that cannot
  be expanded and of conditionals whose branches are again trees; `flatten` gives
  its tokens and `select` the tokens of the branches that its tests choose.

  Skipping passes over a whole tree at any depth (`CondTree.iterate_skipStep`), so
  a branch that is not wanted is skipped up to the token that ends it.  From this,
  each conditional is followed from its first token to its \fi, by recursion on the
  tree: what is read are the selected tokens, and behind the tree the stack of
  conditionals is what it was in front of it.
-/
import Std.Data.TreeMap.Lemmas
import TexEngine.Proofs.Engine.Branch

namespace TexEngine

open Eng Expander

/-! ## Trees -/

/-- A test of a two-way conditional, as it is written. -/
inductive Condition where
  | always
  | never
  | number (a : Literal) (rel : Ordering) (b : Literal)

namespace Condition

/-- The primitive that begins the test. -/
def test : Condition → Test
  | always => .always
  | never => .never
  | number _ _ _ => .number

/-- The sign of a relation. -/
def relationChar : Ordering → Char
  | .lt => '<'
  | .eq => '='
  | .gt => '>'

/-- The tokens behind the primitive; the second number is ended by a space. -/
def tokens : Condition → TokenList
  | always => []
  | never => []
  | number a rel b => a.tokens ++ TokenList.ofChar (relationChar rel) :: (b.tokens ++ [.space])

/-- The test succeeds. -/
def holds : Condition → Bool
  | always => true
  | never => false
  | number a rel b => compare a.value b.value == rel

end Condition

mutual

/-- Text with conditionals, for the meanings that tokens have in an environment. -/
inductive CondTree (env : Env Meaning) where
  | nil
  | token (t : Token) (ht : Unexpandable env t) (rest : CondTree env)
  | branch (c : Condition) (body : CondTree env) (tail : CondTail env) (rest : CondTree env)
  | cases (n : Literal) (body : CondTree env) (tail : CaseTail env) (rest : CondTree env)

/-- The end of a conditional, with or without a branch behind \else. -/
inductive CondTail (env : Env Meaning) where
  | endIf
  | orElse (body : CondTree env)

/-- The end of an \ifcase, behind its first branch. -/
inductive CaseTail (env : Env Meaning) where
  | last (tail : CondTail env)
  | orCase (body : CondTree env) (more : CaseTail env)

end

/-- The control sequence of a primitive. -/
def CondPrimitive.token (p : CondPrimitive) : Token :=
  .cs p.name

mutual

/-- The tokens of a tree. -/
def CondTree.flatten {env : Env Meaning} : CondTree env → TokenList
  | .nil => []
  | .token t _ rest => t :: rest.flatten
  | .branch c body tail rest =>
    (CondPrimitive.test c.test).token ::
      (c.tokens ++ (body.flatten ++ (tail.flatten ++ rest.flatten)))
  | .cases n body tail rest =>
    CondPrimitive.ifCase.token ::
      (n.tokens ++ .space :: (body.flatten ++ (tail.flatten ++ rest.flatten)))

/-- The tokens of the end of a conditional. -/
def CondTail.flatten {env : Env Meaning} : CondTail env → TokenList
  | .endIf => [CondPrimitive.endIf.token]
  | .orElse body => CondPrimitive.orElse.token :: (body.flatten ++ [CondPrimitive.endIf.token])

/-- The tokens of the end of an \ifcase. -/
def CaseTail.flatten {env : Env Meaning} : CaseTail env → TokenList
  | .last tail => tail.flatten
  | .orCase body more => CondPrimitive.orCase.token :: (body.flatten ++ more.flatten)

end

mutual

/-- The tokens of the branches that are chosen. -/
def CondTree.select {env : Env Meaning} : CondTree env → TokenList
  | .nil => []
  | .token t _ rest => t :: rest.select
  | .branch c body tail rest => (if c.holds then body.select else tail.select) ++ rest.select
  | .cases n body tail rest =>
    (if n.value = 0 then body.select else tail.select (n.value - 1)) ++ rest.select

/-- The tokens of the branch behind \else, if there is one. -/
def CondTail.select {env : Env Meaning} : CondTail env → TokenList
  | .endIf => []
  | .orElse body => body.select

/-- The tokens of the branch behind the \or with number `n`, where the first one
    has number 0; if there is none, those of the branch behind \else. -/
def CaseTail.select {env : Env Meaning} : CaseTail env → Int → TokenList
  | .last tail, _ => tail.select
  | .orCase body more, n => if n = 0 then body.select else more.select (n - 1)

end

/-- The primitives that trees are made of. -/
def treePrimitives : List CondPrimitive :=
  [.test .always, .test .never, .test .number, .ifCase, .orElse, .orCase, .endIf]

/-- The control sequences of these primitives have their primitive meanings. -/
def HasConditionals (env : Env Meaning) : Prop :=
  ∀ p ∈ treePrimitives, meaningIn env p.token = some (.conditional p)

theorem Condition.test_mem_treePrimitives (c : Condition) : .test c.test ∈ treePrimitives := by
  cases c <;> simp [treePrimitives, Condition.test]

/-- A machine where tokens mean what they mean in `env`, and that has room for `k`
    more tokens in front of its input. -/
structure Hosts (env : Env Meaning) (m : Machine) (k : Nat) : Prop where
  meanings : ∀ t, meaningIn m.env t = meaningIn env t
  room : m.input.pending + k ≤ m.limits.pushback

namespace Hosts

variable {env : Env Meaning} {m : Machine} {k k' : Nat}

theorem mono (h : Hosts env m k) (hk : k' ≤ k) : Hosts env m k' :=
  ⟨h.meanings, Nat.le_trans (Nat.add_le_add_left hk _) h.room⟩

theorem within (h : Hosts env m k) (c : Conditional) : Hosts env (m.within c) k :=
  ⟨h.meanings, h.room⟩

theorem note (h : Hosts env m k) (es : List Event) : Hosts env (m.note es) k :=
  ⟨h.meanings, h.room⟩

theorem ready (h : Hosts env m k) : Hosts env m.ready k :=
  ⟨h.meanings, h.room⟩

theorem unexpandable (h : Hosts env m k) {t : Token} (ht : Unexpandable env t) :
    Unexpandable m.env t := by
  intro hcommand μ hμ
  rw [h.meanings] at hμ
  exact ht hcommand μ hμ

theorem conditional (h : Hosts env m k) (henv : HasConditionals env) {p : CondPrimitive}
    (hp : p ∈ treePrimitives) : meaningIn m.env p.token = some (.conditional p) := by
  rw [h.meanings]
  exact henv p hp

theorem pending_feed_le (h : Hosts env m k) (ts : TokenList) (hts : ts.length ≤ k) :
    (m.feed ts).input.pending ≤ (m.feed ts).limits.pushback := by
  rw [Machine.pending_feed]
  exact Nat.le_trans (Nat.add_le_add_left hts _) h.room

end Hosts

/-! ## Skipping a tree -/

theorem Condition.unexpandable_of_mem_tokens (c : Condition) (env : Env Meaning) {t : Token}
    (ht : t ∈ c.tokens) : Unexpandable env t := by
  apply unexpandable_of_not_isCommand
  cases c with
  | always => simp [tokens] at ht
  | never => simp [tokens] at ht
  | number a rel b =>
    simp only [tokens, List.mem_append, List.mem_cons, List.not_mem_nil, or_false] at ht
    rcases ht with ha | rfl | hb | rfl
    · exact a.not_isCommand_of_mem_tokens ha
    · exact not_isCommand_ofChar _
    · exact b.not_isCommand_of_mem_tokens hb
    · rfl

section Skipping

variable {env : Env Meaning} {m : Machine} {k : Nat}

theorem skipStep_primitive (henv : HasConditionals env) (hm : Hosts env m k) (i : Nat)
    (cases : Bool) (depth : Nat) {p : CondPrimitive} (hp : p ∈ treePrimitives) (ts : TokenList) :
    skipStep i cases depth (m.feed (p.token :: ts)) =
      .ok (skipOutcome cases p depth) (m.feed ts) :=
  skipStep_conditional i cases depth m ts (hm.conditional henv hp)

mutual

/-- Skipping passes over a whole tree. -/
theorem CondTree.iterate_skipStep (henv : HasConditionals env) (hm : Hosts env m k)
    (T : CondTree env) (i : Nat) (cases : Bool) (depth n : Nat) (ts : TokenList) :
    iterate (skipStep i cases) (n + T.flatten.length) depth (m.feed (T.flatten ++ ts)) =
      iterate (skipStep i cases) n depth (m.feed ts) := by
  -- A tree is skipped as it was built: tokens one by one, and a construct with everything between
  -- its beginning and its \fi, which come back to the same depth.
  match T with
  | .nil => rfl
  | .token t ht rest =>
    rw [CondTree.flatten, List.length_cons, List.cons_append, ← Nat.add_assoc,
      iterate_of_again (skipStep_unexpandable i cases depth m _ (hm.unexpandable ht)),
      rest.iterate_skipStep henv hm]
  | .branch c body tail rest =>
    have hopen := skipStep_primitive henv hm i cases depth c.test_mem_treePrimitives
      (c.tokens ++ (body.flatten ++ (tail.flatten ++ (rest.flatten ++ ts))))
    simp only [CondTree.flatten, List.length_cons, List.length_append, List.cons_append,
      List.append_assoc]
    have hrounds : n + (c.tokens.length + (body.flatten.length + (tail.flatten.length +
        rest.flatten.length)) + 1) = n + rest.flatten.length + tail.flatten.length +
        body.flatten.length + c.tokens.length + 1 := by
      omega
    rw [hrounds, iterate_of_again hopen,
      iterate_skipStep_tokens _ _ _ _ _ _ _ fun t ht => c.unexpandable_of_mem_tokens m.env ht,
      body.iterate_skipStep henv hm, tail.iterate_skipStep henv hm, rest.iterate_skipStep henv hm]
  | .cases l body tail rest =>
    have hopen := skipStep_primitive henv hm i cases depth (p := .ifCase) (by decide)
      (l.tokens ++ .space :: (body.flatten ++ (tail.flatten ++ (rest.flatten ++ ts))))
    simp only [CondTree.flatten, List.length_cons, List.length_append, List.cons_append,
      List.append_assoc]
    have hrounds : n + (l.tokens.length + (body.flatten.length + (tail.flatten.length +
        rest.flatten.length) + 1) + 1) = n + rest.flatten.length + tail.flatten.length +
        body.flatten.length + 1 + l.tokens.length + 1 := by
      omega
    rw [hrounds, iterate_of_again hopen,
      iterate_skipStep_tokens _ _ _ _ _ _ _ fun t ht =>
        unexpandable_of_not_isCommand _ (l.not_isCommand_of_mem_tokens ht),
      iterate_of_again (skipStep_unexpandable i cases _ m _
        (unexpandable_of_not_isCommand _ (t := .space) rfl)),
      body.iterate_skipStep henv hm, tail.iterate_skipStep henv hm, rest.iterate_skipStep henv hm]

/-- Skipping the end of a conditional inside of a branch closes this conditional. -/
theorem CondTail.iterate_skipStep (henv : HasConditionals env) (hm : Hosts env m k)
    (tail : CondTail env) (i : Nat) (cases : Bool) (depth n : Nat) (ts : TokenList) :
    iterate (skipStep i cases) (n + tail.flatten.length) (depth + 1)
        (m.feed (tail.flatten ++ ts)) =
      iterate (skipStep i cases) n depth (m.feed ts) := by
  have hend := skipStep_primitive henv hm i cases (depth + 1) (p := .endIf) (by decide) ts
  match tail with
  | .endIf => exact iterate_of_again hend n
  | .orElse body =>
    -- At a positive depth, \else belongs to the conditional that is skipped.
    have helse := skipStep_primitive henv hm i cases (depth + 1) (p := .orElse) (by decide)
      (body.flatten ++ CondPrimitive.endIf.token :: ts)
    simp only [CondTail.flatten, List.length_cons, List.length_append, List.cons_append,
      List.append_assoc, List.nil_append, List.length_nil]
    have hrounds : n + (body.flatten.length + (0 + 1) + 1) =
        n + 1 + body.flatten.length + 1 := by
      omega
    rw [hrounds, iterate_of_again helse, body.iterate_skipStep henv hm, iterate_of_again hend]

/-- The same for the end of an \ifcase. -/
theorem CaseTail.iterate_skipStep (henv : HasConditionals env) (hm : Hosts env m k)
    (tail : CaseTail env) (i : Nat) (cases : Bool) (depth n : Nat) (ts : TokenList) :
    iterate (skipStep i cases) (n + tail.flatten.length) (depth + 1)
        (m.feed (tail.flatten ++ ts)) =
      iterate (skipStep i cases) n depth (m.feed ts) := by
  match tail with
  | .last tail => exact tail.iterate_skipStep henv hm i cases depth n ts
  | .orCase body more =>
    have hor := skipStep_primitive henv hm i cases (depth + 1) (p := .orCase) (by decide)
      (body.flatten ++ (more.flatten ++ ts))
    simp only [CaseTail.flatten, List.length_cons, List.length_append, List.cons_append,
      List.append_assoc]
    have hrounds : n + (body.flatten.length + more.flatten.length + 1) =
        n + more.flatten.length + body.flatten.length + 1 := by
      omega
    rw [hrounds, iterate_of_again hor, body.iterate_skipStep henv hm,
      more.iterate_skipStep henv hm]

end

/-- What ends the branch in front of the end of a conditional. -/
def CondTail.stop : CondTail env → BranchEnd
  | .endIf => .endIf
  | .orElse _ => .orElse

/-- What follows the token that ends the branch. -/
def CondTail.behind : CondTail env → TokenList
  | .endIf => []
  | .orElse body => body.flatten ++ [CondPrimitive.endIf.token]

/-- The end of an \ifcase behind its last \or. -/
def CaseTail.final : CaseTail env → CondTail env
  | .last tail => tail
  | .orCase _ more => more.final

theorem CondTail.length_flatten (tail : CondTail env) :
    tail.flatten.length = tail.behind.length + 1 := by
  cases tail <;> simp [flatten, behind]

theorem CaseTail.length_final (tail : CaseTail env) :
    tail.final.flatten.length ≤ tail.flatten.length := by
  induction tail using CaseTail.final.induct with
  | case1 tail => exact Nat.le_refl _
  | case2 body more ih =>
    simp only [final, flatten, List.length_cons, List.length_append]
    omega

/-- A number without a branch of its own chooses the one behind \else. -/
theorem CaseTail.select_of_neg (tail : CaseTail env) (n : Int) (hn : n < 0) :
    tail.select n = tail.final.select := by
  induction tail using CaseTail.final.induct generalizing n with
  | case1 tail => rfl
  | case2 body more ih =>
    rw [select, if_neg (by omega), ih (n - 1) (by omega), final]

theorem CondTail.skipStep_stop (henv : HasConditionals env) (hm : Hosts env m k)
    (tail : CondTail env) (i : Nat) (cases : Bool) (ts : TokenList) :
    skipStep i cases 0 (m.feed (tail.flatten ++ ts)) =
      .ok (.done tail.stop) (m.feed (tail.behind ++ ts)) := by
  cases tail with
  | endIf => exact skipStep_primitive henv hm i cases 0 (p := .endIf) (by decide) ts
  | orElse body => exact skipStep_primitive henv hm i cases 0 (p := .orElse) (by decide) _

/-- Where \or does not count, skipping goes up to the final end of an \ifcase. -/
theorem CaseTail.iterate_skipStep_final (henv : HasConditionals env) (hm : Hosts env m k)
    (body : CondTree env) (tail : CaseTail env) (i n : Nat) (ts : TokenList) :
    iterate (skipStep i false) (n + body.flatten.length + tail.flatten.length) 0
        (m.feed (body.flatten ++ (tail.flatten ++ ts))) =
      .ok tail.final.stop (m.feed (tail.final.behind ++ ts)) := by
  rw [Nat.add_right_comm, body.iterate_skipStep henv hm]
  induction tail using CaseTail.final.induct generalizing body n with
  | case1 tail =>
    rw [flatten, tail.length_flatten, ← Nat.add_assoc,
      iterate_of_done (tail.skipStep_stop henv hm i false ts), final]
  | case2 inner more ih =>
    have hor := skipStep_primitive henv hm i false 0 (p := .orCase) (by decide)
      (inner.flatten ++ (more.flatten ++ ts))
    simp only [flatten, List.length_cons, List.length_append, List.cons_append,
      List.append_assoc]
    have hrounds : n + (inner.flatten.length + more.flatten.length + 1) =
        n + more.flatten.length + inner.flatten.length + 1 := by
      omega
    rw [hrounds, iterate_of_again hor, inner.iterate_skipStep henv hm, ih inner, final]

variable {x : Expander}

theorem CaseTail.skipBranch_final (henv : HasConditionals env) (hm : Hosts env m k)
    (body : CondTree env) (tail : CaseTail env) (i : Nat)
    (hfuel : body.flatten.length + tail.flatten.length ≤ x.fuel) (ts : TokenList) :
    x.skipBranch i false (m.feed (body.flatten ++ (tail.flatten ++ ts))) =
      .ok tail.final.stop (m.feed (tail.final.behind ++ ts)) := by
  obtain ⟨n, hn⟩ := Nat.exists_eq_add_of_le' hfuel
  rw [skipBranch_eq_iterate, hn, ← Nat.add_assoc, tail.iterate_skipStep_final henv hm body]

theorem CondTail.skipBranch_cases (henv : HasConditionals env) (hm : Hosts env m k)
    (body : CondTree env) (tail : CondTail env) (i : Nat)
    (hfuel : body.flatten.length < x.fuel) (ts : TokenList) :
    x.skipBranch i true (m.feed (body.flatten ++ (tail.flatten ++ ts))) =
      .ok tail.stop (m.feed (tail.behind ++ ts)) := by
  obtain ⟨n, hn⟩ := Nat.exists_eq_add_of_lt hfuel
  have hrounds : body.flatten.length + n + 1 = n + 1 + body.flatten.length := by omega
  rw [skipBranch_eq_iterate, hn, hrounds, body.iterate_skipStep henv hm,
    iterate_of_done (tail.skipStep_stop henv hm i true ts)]

theorem CaseTail.skipBranch_orCase (henv : HasConditionals env) (hm : Hosts env m k)
    (body : CondTree env) (i : Nat) (hfuel : body.flatten.length < x.fuel) (ts : TokenList) :
    x.skipBranch i true (m.feed (body.flatten ++ CondPrimitive.orCase.token :: ts)) =
      .ok .orCase (m.feed ts) := by
  obtain ⟨n, hn⟩ := Nat.exists_eq_add_of_lt hfuel
  have hrounds : body.flatten.length + n + 1 = n + 1 + body.flatten.length := by omega
  have hor := skipStep_primitive henv hm i true 0 (p := .orCase) (by decide) ts
  rw [skipBranch_eq_iterate, hn, hrounds, body.iterate_skipStep henv hm, iterate_of_done hor]

/-- The rest of a conditional is skipped and the conditional closed. -/
theorem CaseTail.skipToFi_within (henv : HasConditionals env) (hm : Hosts env m k)
    (body : CondTree env) (tail : CaseTail env) (c : Conditional)
    (hfuel : body.flatten.length + tail.flatten.length + 1 ≤ x.fuel) (ts : TokenList) :
    x.skipToFi ((m.within c).feed (body.flatten ++ (tail.flatten ++ ts))) =
      .ok () (m.feed ts) := by
  have hskip := fun body tail (h : _ ≤ _) =>
    CaseTail.skipBranch_final (x := x) henv (hm.within c) body tail
      ((m.within c).env.conditionals.size - 1) h ts
  have hfirst := hskip body tail (by omega)
  have hlength := tail.length_final
  obtain ⟨n, hn⟩ : ∃ n, x.fuel = n + 1 + 1 := by
    have := tail.final.length_flatten
    exact ⟨x.fuel - 2, by omega⟩
  unfold skipToFi
  rw [bind_of_ok (env_apply _), hn, Machine.env_feed]
  cases hfinal : tail.final with
  | endIf =>
    rw [hfinal] at hfirst
    exact iterate_of_done (x.fiStep_endIf m c hfirst) _
  | orElse inner =>
    -- The branch behind \else is skipped in a second round.
    rw [hfinal] at hfirst hlength
    simp only [CondTail.flatten, List.length_cons, List.length_append, List.length_nil] at hlength
    have hsecond := hskip inner (.last .endIf) (by
      simp only [CaseTail.flatten, CondTail.flatten, List.length_cons, List.length_nil]
      omega)
    simp only [CondTail.behind, List.append_assoc] at hfirst
    exact (iterate_of_again (x.fiStep_orElse hfirst) _).trans
      (iterate_of_done (x.fiStep_endIf m c hsecond) _)

end Skipping

/-! ## Tests -/

theorem scanRelation_feed (x : Expander) (hx : 0 < x.fuel) (rel : Ordering) (m : Machine)
    (ts : TokenList) :
    x.scanRelation (m.ready.feed (TokenList.ofChar (Condition.relationChar rel) :: ts)) =
      .ok rel (m.ready.feed ts) := by
  have hnext := x.next?_feed_of_not_isCommand hx m
    (not_isCommand_ofChar (Condition.relationChar rel)) ts
  have hspace : (TokenList.ofChar (Condition.relationChar rel)).hasCat .space = false := by
    cases rel <;> decide
  unfold scanRelation
  rw [bind_of_ok (x.nextNonSpace?_of_some hx hnext hspace), bind_of_ok (expect_some ..)]
  cases rel <;> rfl

theorem related_word (a b : Literal) (rel : Ordering) :
    related a.word rel b.word = (compare a.value b.value == rel) := by
  rw [Bool.eq_iff_iff, beq_iff_eq]
  cases rel with
  | lt =>
    rw [Int.compare_eq_lt, ← a.toInt_word, ← b.toInt_word, ← Int64.lt_iff_toInt_lt]
    exact decide_eq_true_iff
  | eq =>
    rw [Int.compare_eq_eq, ← a.toInt_word, ← b.toInt_word, Int64.toInt_inj]
    exact beq_iff_eq
  | gt =>
    rw [Int.compare_eq_gt, ← a.toInt_word, ← b.toInt_word, ← Int64.lt_iff_toInt_lt]
    exact decide_eq_true_iff

/-- A test is evaluated as it is written. -/
theorem Condition.test_apply (c : Condition) (x : Expander)
    (hfuel : c.tokens.length + 1 ≤ x.fuel) (m : Machine) (ts : TokenList) :
    x.test c.test (m.ready.feed (c.tokens ++ ts)) = .ok c.holds (m.ready.feed ts) := by
  cases c with
  | always => rfl
  | never => rfl
  | number a rel b =>
    simp only [tokens, List.length_append, List.length_cons, List.length_nil] at hfuel
    have hx : 0 < x.fuel := by omega
    have hfirst := a.scanInteger_tokens x (by omega)
      (TokenList.ofChar (relationChar rel) :: (b.tokens ++ .space :: ts)) m.ready _ rfl
      (x.endsDigits_feed hx m _ (by cases rel <;> decide) (by cases rel <;> decide)
        (unexpandable_of_not_isCommand _ (not_isCommand_ofChar _)))
    have hsecond := b.scanInteger_tokens x (by omega) (.space :: ts) m.ready _ rfl
      (x.endsDigits_space hx m ts)
    have hinput : (number a rel b).tokens ++ ts =
        a.tokens ++ TokenList.ofChar (relationChar rel) :: (b.tokens ++ .space :: ts) := by
      simp [tokens]
    rw [hinput]
    show (do
      let a ← x.scanInteger
      let rel ← x.scanRelation
      return related a rel (← x.scanInteger) : Eng Bool) _ = _
    rw [bind_of_ok hfirst, bind_of_ok (scanRelation_feed x hx rel m _), bind_of_ok hsecond,
      related_word]
    rfl

/-! ## Evaluation -/

/-- Reading goes on from `m₁` with at most `n` expansions, delivers `sel`, and comes
    to the tokens `ts` in front of the input of `m`.  Only events may be added to `m`. -/
structure Continues (x : Expander) (n : Nat) (m₁ : Machine) (sel : TokenList) (m : Machine)
    (ts : TokenList) : Prop where
  room : m₁.input.pending ≤ m₁.limits.pushback
  reads : ∃ k es, k ≤ n ∧ Reads x k m₁ sel ((m.ready.note es).feed ts)

namespace Continues

variable {x : Expander} {n n' : Nat} {m₁ m₂ m : Machine} {sel sel' ts ts' : TokenList}

theorem mono (h : Continues x n m₁ sel m ts) (hn : n ≤ n') : Continues x n' m₁ sel m ts := by
  obtain ⟨hroom, k, es, hk, hreads⟩ := h
  exact ⟨hroom, k, es, by omega, hreads⟩

theorem refl (hroom : (m.feed ts).input.pending ≤ (m.feed ts).limits.pushback) :
    Continues x 0 (m.ready.feed ts) [] m ts :=
  ⟨hroom, 0, [], Nat.le_refl 0, .nil (.refl _)⟩

theorem trans (h : Continues x n m₁ sel m ts)
    (h' : ∀ es, Continues x n' ((m.note es).ready.feed ts) sel' (m.note es) ts') :
    Continues x (n + n') m₁ (sel ++ sel') m ts' := by
  obtain ⟨hroom, k, es, hk, hreads⟩ := h
  obtain ⟨-, k', es', hk', hreads'⟩ := h' es
  refine ⟨hroom, k + k', es ++ es', by omega, ?_⟩
  rw [← Machine.note_note]
  exact hreads.append hreads'

theorem of_note {es : List Event} (h : Continues x n m₁ sel (m.note es) ts) :
    Continues x n m₁ sel m ts := by
  obtain ⟨hroom, k, es', hk, hreads⟩ := h
  refine ⟨hroom, k, es ++ es', hk, ?_⟩
  rw [← Machine.note_note]
  exact hreads

/-- Reading begins with an expansion. -/
theorem expand (hroom : m₁.input.pending ≤ m₁.limits.pushback)
    (hstep : x.nextStep () m₁ = .ok (.again ()) m₂) (h : Continues x n m₂ sel m ts) :
    Continues x (n + 1) m₁ sel m ts := by
  obtain ⟨-, k, es, hk, hreads⟩ := h
  refine ⟨hroom, 1 + k, es, by omega, ?_⟩
  exact (Silent.step hstep (.refl m₂)).reads hreads

/-- Reading ends with an expansion that leaves a conditional. -/
theorem leave {c : Conditional} (h : Continues x n m₁ sel (m.within c) ts)
    (hstep : ∀ es, x.nextStep () (((m.note es).ready.within c).feed ts) =
      .ok (.again ()) ((m.note es).ready.feed ts')) :
    Continues x (n + 1) m₁ sel m ts' := by
  obtain ⟨hroom, k, es, hk, hreads⟩ := h
  refine ⟨hroom, k + 1, es, by omega, ?_⟩
  have hlast : Reads x 1 (((m.note es).ready.within c).feed ts) [] ((m.note es).ready.feed ts') :=
    .nil (.step (hstep es) (.refl _))
  rw [← List.append_nil sel]
  exact hreads.append hlast

end Continues

section Evaluation

variable {env : Env Meaning} {m m' : Machine} {fuel depth k : Nat}

@[simp] theorem fuel_ofDepth (fuel depth : Nat) : (ofDepth fuel depth).fuel = fuel := by
  cases depth <;> rfl

/-- Reading a primitive expands it. -/
theorem nextStep_primitive (henv : HasConditionals env) (hm : Hosts env m k) {p : CondPrimitive}
    (hp : p ∈ treePrimitives) {ts : TokenList}
    (h : (ofDepth fuel depth).expandConditional p p.token (m.ready.feed ts) = .ok () m')
    (hroom : m'.input.pending ≤ m'.limits.pushback) :
    (ofDepth fuel (depth + 1)).nextStep () (m.ready.feed (p.token :: ts)) =
      .ok (.again ()) m' := by
  apply nextStep_of_expandable (μ := .conditional p)
  · exact token?_feed_cons m.ready p.token ts (by simp)
  · rfl
  · rfl
  · exact hm.conditional henv hp
  · rfl
  · exact expand_ofDepth fuel depth h hroom

/-- A conditional whose branch has been entered, and not by \else. -/
structure Entered (c : Conditional) : Prop where
  pending : c.pending = false
  inElse : c.inElse = false

/-- At the end of a branch, the rest of the conditional is skipped. -/
theorem CaseTail.nextStep_leave (henv : HasConditionals env) (tail : CaseTail env)
    {c : Conditional} (hc : Entered c) (hcase : c.isCase = true ∨ tail = .last tail.final)
    {ts : TokenList} (hm : Hosts env m ts.length) (hfuel : tail.flatten.length + 1 ≤ fuel) :
    (ofDepth fuel (depth + 1)).nextStep () ((m.ready.within c).feed (tail.flatten ++ ts)) =
      .ok (.again ()) (m.ready.feed ts) := by
  have hroom := hm.ready.pending_feed_le ts (Nat.le_refl ts.length)
  match tail with
  | .last .endIf =>
    exact nextStep_primitive henv (hm.within c) (p := .endIf) (by decide)
      (endBranch_endIf _ _ m.ready ts hc.pending) hroom
  | .last (.orElse body) =>
    -- The branch behind \else is not wanted any more.
    simp only [flatten, CondTail.flatten, List.length_cons, List.length_append, List.length_nil,
      List.cons_append, List.append_assoc] at hfuel ⊢
    have hskip := CaseTail.skipToFi_within (x := ofDepth fuel depth) henv hm.ready body
      (.last .endIf) c (by
        simp only [flatten, CondTail.flatten, List.length_cons, List.length_nil, fuel_ofDepth]
        omega) ts
    exact nextStep_primitive henv (hm.within c) (p := .orElse) (by decide)
      ((endBranch_orElse _ _ m.ready _ hc.pending hc.inElse).trans hskip) hroom
  | .orCase body more =>
    -- A further \or stands in an \ifcase only.
    have hcase : c.isCase = true := by
      rcases hcase with h | h
      · exact h
      · contradiction
    simp only [flatten, List.length_cons, List.length_append, List.cons_append,
      List.append_assoc] at hfuel ⊢
    have hskip := CaseTail.skipToFi_within (x := ofDepth fuel depth) henv hm.ready body more c
      (by rw [fuel_ofDepth]; omega) ts
    exact nextStep_primitive henv (hm.within c) (p := .orCase) (by decide)
      ((endBranch_orCase _ _ m.ready _ hc.pending hc.inElse hcase).trans hskip) hroom

theorem enterBranch_within (m : Machine) (c : Conditional) (ts : TokenList) :
    enterBranch m.env.conditionals.size ((m.within c).feed ts) =
      .ok () ((m.within { c with value := true }).feed ts) :=
  modifyConditional_within m c ts _

/-- The machine where reading goes on once the branches in front of the end of a
    conditional have been skipped. -/
def CondTail.resume (tail : CondTail env) (m : Machine) (c : Conditional) (ts : TokenList) :
    Machine :=
  match tail with
  | .endIf => m.feed ts
  | .orElse body =>
    (m.within { c with value := true, inElse := true }).feed
      (body.flatten ++ CondPrimitive.endIf.token :: ts)

theorem CaseTail.skipFirst_within {x : Expander} (henv : HasConditionals env)
    (hm : Hosts env m k) (body : CondTree env) (tail : CaseTail env) (c : Conditional)
    (hfuel : body.flatten.length + tail.flatten.length ≤ x.fuel) (ts : TokenList) :
    x.skipFirst m.env.conditionals.size
        ((m.within c).feed (body.flatten ++ (tail.flatten ++ ts))) =
      .ok () (tail.final.resume m c ts) := by
  have hskip := tail.skipBranch_final henv (hm.within c) body m.env.conditionals.size hfuel ts
  unfold skipFirst
  rw [bind_of_ok hskip]
  cases tail.final with
  | endIf => exact popConditional_within m c ts
  | orElse inner =>
    simp only [CondTail.behind, CondTail.stop, CondTail.resume, List.append_assoc]
    exact modifyConditional_within m c _ _

/-- A two-way conditional is evaluated up to the choice of a branch. -/
theorem Condition.expandIf_feed (c : Condition) (x : Expander)
    (hfuel : c.tokens.length + 1 ≤ x.fuel) (m : Machine) (ts : TokenList) :
    ∃ es k, Entered k ∧ x.expandIf c.test (m.ready.feed (c.tokens ++ ts)) =
      (if c.holds then enterBranch m.env.conditionals.size
        else x.skipFirst m.env.conditionals.size) (((m.note es).ready.within k).feed ts) := by
  obtain ⟨es, locator, hopen⟩ := openConditional_feed c.test.name false m.ready (c.tokens ++ ts)
  have htest : whilePending m.env.conditionals.size (x.test c.test) _ = .ok c.holds _ :=
    whilePending_of_ok (m := (m.note es).ready)
      (c.test_apply x hfuel ((m.note es).within (opening locator c.test.name false)) ts)
  refine ⟨es, { opening locator c.test.name false with pending := false }, ⟨rfl, rfl⟩, ?_⟩
  unfold expandIf
  rw [bind_of_ok hopen]
  exact bind_of_ok htest _

/-- An \ifcase is evaluated up to the choice of a branch. -/
theorem Literal.expandCase_feed (l : Literal) (x : Expander)
    (hfuel : l.tokens.length + 1 ≤ x.fuel) (m : Machine) (ts : TokenList) :
    ∃ es k, Entered k ∧ k.isCase = true ∧
      x.expandCase (m.ready.feed (l.tokens ++ .space :: ts)) =
        (if l.word < 0 then x.skipFirst m.env.conditionals.size
          else x.skipCases m.env.conditionals.size l.word)
          (((m.note es).ready.within k).feed ts) := by
  obtain ⟨es, locator, hopen⟩ :=
    openConditional_feed CondPrimitive.ifCase.name true m.ready (l.tokens ++ .space :: ts)
  let m' := (m.note es).within (opening locator CondPrimitive.ifCase.name true)
  have hscan := l.scanInteger_tokens x hfuel (.space :: ts) m'.ready _ rfl
    (x.endsDigits_space (by omega) m' ts)
  have htest : whilePending m.env.conditionals.size x.scanInteger _ = .ok l.word _ :=
    whilePending_of_ok (m := (m.note es).ready) hscan
  refine ⟨es, { opening locator CondPrimitive.ifCase.name true with pending := false },
    ⟨rfl, rfl⟩, rfl, ?_⟩
  unfold expandCase
  rw [bind_of_ok hopen]
  exact bind_of_ok htest _

/-- Reading a tree delivers its selected tokens and comes to what is behind it. -/
def CondTree.Evaluates (fuel depth : Nat) (T : CondTree env) : Prop :=
  ∀ m ts, Hosts env m (T.flatten.length + ts.length) → T.flatten.length + 2 ≤ fuel →
    Continues (ofDepth fuel (depth + 1)) T.flatten.length (m.ready.feed (T.flatten ++ ts))
      T.select m ts

/-- The same for what follows a branch that was skipped. -/
def CondTail.Evaluates (fuel depth : Nat) (tail : CondTail env) : Prop :=
  ∀ m ts c, Entered c → Hosts env m (tail.flatten.length + ts.length) →
    tail.flatten.length + 2 ≤ fuel →
    Continues (ofDepth fuel (depth + 1)) tail.flatten.length (tail.resume m.ready c ts)
      tail.select m ts

/-- The same for the branches of an \ifcase, from one where `n` more branches are
    to be skipped. -/
def CaseTail.Evaluates (fuel depth : Nat) (tail : CaseTail env) : Prop :=
  ∀ (body : CondTree env) (n : Int64) m ts c (r : Nat), body.Evaluates fuel depth →
    0 ≤ n.toInt → Entered c → c.isCase = true →
    Hosts env m (body.flatten.length + (tail.flatten.length + ts.length)) →
    body.flatten.length + tail.flatten.length + 2 ≤ fuel → tail.flatten.length ≤ r →
    ∃ m₁, iterate ((ofDepth fuel depth).casesStep m.env.conditionals.size) r n
        ((m.ready.within c).feed (body.flatten ++ (tail.flatten ++ ts))) = .ok () m₁ ∧
      Continues (ofDepth fuel (depth + 1)) (body.flatten.length + tail.flatten.length) m₁
        (if n.toInt = 0 then body.select else tail.select (n.toInt - 1)) m ts

/-! ### One conditional -/

theorem toInt_sub_one {n : Int64} (hn : 0 < n.toInt) : (n - 1).toInt = n.toInt - 1 := by
  apply Int64.toInt_sub_of_le
  · decide
  · rw [Int64.le_iff_toInt_le]
    exact hn

theorem not_le_zero_of_toInt {n : Int64} (hn : 0 < n.toInt) : ¬ n ≤ 0 := by
  rw [Int64.le_iff_toInt_le]
  exact Int.not_le.mpr hn

theorem CondTree.evaluates_token {t : Token} (ht : Unexpandable env t) {rest : CondTree env}
    (hrest : rest.Evaluates fuel depth) : (CondTree.token t ht rest).Evaluates fuel depth := by
  intro m ts hm hfuel
  simp only [flatten, select, List.length_cons, List.cons_append] at hm hfuel ⊢
  obtain ⟨-, k, es, hk, hreads⟩ := hrest m ts (hm.mono (by omega)) (by omega)
  have hfirst := (ofDepth fuel (depth + 1)).nextStep_of_unexpandable
    (token?_feed_cons m.ready t (rest.flatten ++ ts) (by simp)) (hm.unexpandable ht)
  have hroom := hm.ready.pending_feed_le (t :: (rest.flatten ++ ts))
    (by simp only [List.length_cons, List.length_append]; omega)
  exact ⟨hroom, 0 + k, es, by omega, .cons (.refl _) hfirst hreads⟩

/-- A branch that was entered is read up to the end of its conditional. -/
theorem CondTree.Evaluates.continues (henv : HasConditionals env) {body : CondTree env}
    (hbody : body.Evaluates fuel depth) (tail : CaseTail env) {c : Conditional} (hc : Entered c)
    (hcase : c.isCase = true ∨ tail = .last tail.final) (m : Machine) (ts : TokenList)
    (hm : Hosts env m (body.flatten.length + (tail.flatten.length + ts.length)))
    (hfuel : body.flatten.length + tail.flatten.length + 2 ≤ fuel) :
    Continues (ofDepth fuel (depth + 1)) (body.flatten.length + 1)
      ((m.ready.within c).feed (body.flatten ++ (tail.flatten ++ ts))) body.select m ts := by
  have hread := hbody (m.within c) (tail.flatten ++ ts)
    (by rw [List.length_append]; exact hm.within c) (by omega)
  refine hread.leave ?_
  intro es
  exact tail.nextStep_leave henv hc hcase ((hm.mono (by omega)).note es) (by omega)

theorem CondTree.evaluates_branch (henv : HasConditionals env) (c : Condition)
    {body : CondTree env} {tail : CondTail env} {rest : CondTree env}
    (hbody : body.Evaluates fuel depth) (htail : tail.Evaluates fuel depth)
    (hrest : rest.Evaluates fuel depth) :
    (CondTree.branch c body tail rest).Evaluates fuel depth := by
  intro m ts hm hfuel
  simp only [flatten, select, List.length_cons, List.length_append, List.cons_append,
    List.append_assoc] at hm hfuel ⊢
  obtain ⟨es, k, hk, hexpand⟩ := c.expandIf_feed (ofDepth fuel depth)
    (by rw [fuel_ofDepth]; omega) m (body.flatten ++ (tail.flatten ++ (rest.flatten ++ ts)))
  -- The expansion chooses a branch, from where reading goes on.
  have hchoice : ∃ m₁, (ofDepth fuel depth).expandIf c.test (m.ready.feed (c.tokens ++
      (body.flatten ++ (tail.flatten ++ (rest.flatten ++ ts))))) = .ok () m₁ ∧
      Continues (ofDepth fuel (depth + 1)) (body.flatten.length + tail.flatten.length) m₁
        (if c.holds then body.select else tail.select) m (rest.flatten ++ ts) := by
    cases hholds : c.holds with
    | true =>
      -- The first branch is read, and its end skips the other one.
      rw [hholds, if_pos rfl] at hexpand
      have hread := hbody.continues henv (.last tail) (c := { k with value := true })
        ⟨hk.pending, hk.inElse⟩ (.inr rfl) (m.note es) (rest.flatten ++ ts)
        ((hm.note es).mono (by simp only [CaseTail.flatten, List.length_append]; omega))
        (by simp only [CaseTail.flatten]; omega)
      have hlength := tail.length_flatten
      exact ⟨_, hexpand.trans (enterBranch_within (m.note es).ready k _),
        hread.of_note.mono (by omega)⟩
    | false =>
      -- The first branch is skipped within the same expansion.
      rw [hholds, if_neg (by simp)] at hexpand
      have hskip := CaseTail.skipFirst_within (x := ofDepth fuel depth) henv (hm.note es).ready
        body (.last tail) k (by simp only [CaseTail.flatten, fuel_ofDepth]; omega)
        (rest.flatten ++ ts)
      have hread := htail (m.note es) (rest.flatten ++ ts) k hk
        ((hm.note es).mono (by rw [List.length_append]; omega)) (by omega)
      exact ⟨_, hexpand.trans hskip, hread.of_note.mono (by omega)⟩
  obtain ⟨m₁, hrun, hread⟩ := hchoice
  have hroom := hm.ready.pending_feed_le ((CondPrimitive.test c.test).token ::
    (c.tokens ++ (body.flatten ++ (tail.flatten ++ (rest.flatten ++ ts)))))
    (by simp only [List.length_cons, List.length_append]; omega)
  have hcond := hread.expand hroom
    (nextStep_primitive henv hm c.test_mem_treePrimitives hrun hread.room)
  refine (hcond.trans fun es => hrest (m.note es) ts ?_ (by omega)).mono (by omega)
  exact (hm.note es).mono (by omega)

theorem CondTree.evaluates_cases (henv : HasConditionals env) (l : Literal)
    {body : CondTree env} {tail : CaseTail env} {rest : CondTree env}
    (hbody : body.Evaluates fuel depth) (htail : tail.Evaluates fuel depth)
    (hfinal : tail.final.Evaluates fuel depth) (hrest : rest.Evaluates fuel depth) :
    (CondTree.cases l body tail rest).Evaluates fuel depth := by
  intro m ts hm hfuel
  simp only [flatten, select, List.length_cons, List.length_append, List.cons_append,
    List.append_assoc] at hm hfuel ⊢
  obtain ⟨es, k, hk, hcase, hexpand⟩ := l.expandCase_feed (ofDepth fuel depth)
    (by rw [fuel_ofDepth]; omega) m (body.flatten ++ (tail.flatten ++ (rest.flatten ++ ts)))
  -- The word is negative exactly if the number is.
  have hneg : l.word < 0 ↔ l.value < 0 := by
    rw [Int64.lt_iff_toInt_lt, l.toInt_word]
    rfl
  have hchoice : ∃ m₁, (ofDepth fuel depth).expandCase (m.ready.feed (l.tokens ++ .space ::
      (body.flatten ++ (tail.flatten ++ (rest.flatten ++ ts))))) = .ok () m₁ ∧
      Continues (ofDepth fuel (depth + 1)) (body.flatten.length + tail.flatten.length) m₁
        (if l.value = 0 then body.select else tail.select (l.value - 1)) m
        (rest.flatten ++ ts) := by
    by_cases hvalue : l.value < 0
    · -- A negative number has no branch of its own.
      rw [if_pos (hneg.mpr hvalue)] at hexpand
      rw [if_neg (by omega), tail.select_of_neg _ (by omega)]
      have hskip := tail.skipFirst_within (x := ofDepth fuel depth) henv (hm.note es).ready
        body k (by rw [fuel_ofDepth]; omega) (rest.flatten ++ ts)
      have hlength := tail.length_final
      have hread := hfinal (m.note es) (rest.flatten ++ ts) k hk
        ((hm.note es).mono (by rw [List.length_append]; omega)) (by omega)
      exact ⟨_, hexpand.trans hskip, hread.of_note.mono (by omega)⟩
    · -- The other numbers count branches, in the loop that `htail` is about.
      rw [if_neg (by rwa [hneg]), skipCases_eq_iterate] at hexpand
      obtain ⟨m₁, hrun, hread⟩ := htail body l.word (m.note es) (rest.flatten ++ ts) k
        (ofDepth fuel depth).fuel hbody (by rw [l.toInt_word]; omega) hk hcase
        ((hm.note es).mono (by rw [List.length_append]; omega)) (by omega)
        (by rw [fuel_ofDepth]; omega)
      rw [l.toInt_word] at hread
      exact ⟨m₁, hexpand.trans hrun, hread.of_note⟩
  obtain ⟨m₁, hrun, hread⟩ := hchoice
  have hroom := hm.ready.pending_feed_le (CondPrimitive.ifCase.token :: (l.tokens ++
    .space :: (body.flatten ++ (tail.flatten ++ (rest.flatten ++ ts)))))
    (by simp only [List.length_cons, List.length_append]; omega)
  have hcond := hread.expand hroom
    (nextStep_primitive henv hm (p := .ifCase) (by decide) hrun hread.room)
  refine (hcond.trans fun es => hrest (m.note es) ts ?_ (by omega)).mono (by omega)
  exact (hm.note es).mono (by omega)

theorem CondTail.evaluates_endIf : (CondTail.endIf : CondTail env).Evaluates fuel depth := by
  intro m ts c _ hm _
  exact (Continues.refl (hm.pending_feed_le ts (by omega))).mono (by omega)

theorem CondTail.evaluates_orElse (henv : HasConditionals env) {body : CondTree env}
    (hbody : body.Evaluates fuel depth) : (CondTail.orElse body).Evaluates fuel depth := by
  intro m ts c hc hm hfuel
  simp only [flatten, select, List.length_cons, List.length_append, List.length_nil] at hm hfuel ⊢
  have hread := hbody (m.within { c with value := true, inElse := true })
    (CondPrimitive.endIf.token :: ts)
    ((hm.within _).mono (by simp only [List.length_cons]; omega)) (by omega)
  refine (hread.leave ?_).mono (by omega)
  intro es
  exact nextStep_primitive henv ((hm.note es).within _) (p := .endIf) (by decide)
    (endBranch_endIf _ _ (m.note es).ready ts hc.pending)
    ((hm.note es).ready.pending_feed_le ts (by omega))

/-- No more branches are to be skipped: the current one is entered. -/
theorem CaseTail.iterate_casesStep_zero (henv : HasConditionals env) {body : CondTree env}
    (hbody : body.Evaluates fuel depth) (tail : CaseTail env) {n : Int64} (hn : n.toInt = 0)
    {c : Conditional} (hc : Entered c) (hcase : c.isCase = true) (m : Machine) (ts : TokenList)
    (hm : Hosts env m (body.flatten.length + (tail.flatten.length + ts.length)))
    (hfuel : body.flatten.length + tail.flatten.length + 2 ≤ fuel) (r : Nat) :
    ∃ m₁, iterate ((ofDepth fuel depth).casesStep m.env.conditionals.size) (r + 1) n
        ((m.ready.within c).feed (body.flatten ++ (tail.flatten ++ ts))) = .ok () m₁ ∧
      Continues (ofDepth fuel (depth + 1)) (body.flatten.length + 1) m₁ body.select m ts := by
  have hle : n ≤ 0 := by
    rw [Int64.le_iff_toInt_le, hn]
    decide
  have hread := hbody.continues henv tail (c := { c with value := true }) ⟨hc.pending, hc.inElse⟩
    (.inl hcase) m ts hm hfuel
  refine ⟨_, ?_, hread⟩
  apply iterate_of_done
  unfold casesStep
  rw [if_pos hle]
  exact bind_of_ok (enterBranch_within m.ready c _) _

theorem CaseTail.evaluates_last (henv : HasConditionals env) {tail : CondTail env}
    (htail : tail.Evaluates fuel depth) : (CaseTail.last tail).Evaluates fuel depth := by
  intro body n m ts c r hbody hn hc hcase hm hfuel hr
  -- `body` is the last branch: it is entered, or there is none for the number.
  simp only [flatten, select] at hm hfuel hr ⊢
  have hlength := tail.length_flatten
  obtain ⟨r, rfl⟩ : ∃ r', r = r' + 1 := ⟨r - 1, by omega⟩
  by_cases hzero : n.toInt = 0
  · rw [if_pos hzero]
    obtain ⟨m₁, hrun, hread⟩ := CaseTail.iterate_casesStep_zero henv hbody (.last tail) hzero hc
      hcase m ts hm hfuel r
    exact ⟨m₁, hrun, hread.mono (by omega)⟩
  · rw [if_neg hzero]
    have hskip := tail.skipBranch_cases (x := ofDepth fuel depth) henv (hm.ready.within c) body
      m.env.conditionals.size (by rw [fuel_ofDepth]; omega) ts
    have hread := htail m ts c hc (hm.mono (by omega)) (by omega)
    refine ⟨_, ?_, hread.mono (by omega)⟩
    have hpos : ¬ n ≤ 0 := not_le_zero_of_toInt (by omega)
    apply iterate_of_done
    unfold casesStep
    rw [if_neg hpos, bind_of_ok hskip]
    cases tail with
    | endIf => exact bind_of_ok (popConditional_within m.ready c ts) _
    | orElse inner =>
      simp only [CondTail.behind, List.append_assoc]
      exact bind_of_ok (modifyConditional_within m.ready c _ _) _

theorem CaseTail.evaluates_orCase (henv : HasConditionals env) {inner : CondTree env}
    {more : CaseTail env} (hinner : inner.Evaluates fuel depth)
    (hmore : more.Evaluates fuel depth) :
    (CaseTail.orCase inner more).Evaluates fuel depth := by
  intro body n m ts c r hbody hn hc hcase hm hfuel hr
  -- The number counts down to the branch that is taken.
  by_cases hzero : n.toInt = 0
  · rw [if_pos hzero]
    simp only [flatten, List.length_cons] at hr
    obtain ⟨r, rfl⟩ : ∃ r', r = r' + 1 := ⟨r - 1, by omega⟩
    obtain ⟨m₁, hrun, hread⟩ := CaseTail.iterate_casesStep_zero henv hbody (.orCase inner more)
      hzero hc hcase m ts hm hfuel r
    refine ⟨m₁, hrun, hread.mono ?_⟩
    simp only [flatten, List.length_cons]
    omega
  · -- One branch is skipped up to its \or, and the next one takes its place.
    rw [if_neg hzero]
    simp only [flatten, select, List.length_cons, List.length_append, List.cons_append,
      List.append_assoc] at hm hfuel hr ⊢
    obtain ⟨r, rfl⟩ : ∃ r', r = r' + 1 := ⟨r - 1, by omega⟩
    have hskip := CaseTail.skipBranch_orCase (x := ofDepth fuel depth) henv (hm.ready.within c)
      body m.env.conditionals.size (by rw [fuel_ofDepth]; omega)
      (inner.flatten ++ (more.flatten ++ ts))
    have hpos : ¬ n ≤ 0 := not_le_zero_of_toInt (by omega)
    have hdown := toInt_sub_one (n := n) (by omega)
    have hstep : (ofDepth fuel depth).casesStep m.env.conditionals.size n
        ((m.ready.within c).feed (body.flatten ++ CondPrimitive.orCase.token ::
          (inner.flatten ++ (more.flatten ++ ts)))) =
        .ok (.again (n - 1))
          ((m.ready.within c).feed (inner.flatten ++ (more.flatten ++ ts))) := by
      unfold casesStep
      rw [if_neg hpos, bind_of_ok hskip]
      rfl
    obtain ⟨m₁, hrun, hread⟩ := hmore inner (n - 1) m ts c r hinner (by omega) hc hcase
      (hm.mono (by omega)) (by omega) (by omega)
    rw [hdown] at hread
    exact ⟨m₁, (iterate_of_again hstep r).trans hrun, hread.mono (by omega)⟩

/-! ### Whole trees -/

mutual

theorem CondTree.evaluates (henv : HasConditionals env) (T : CondTree env) :
    T.Evaluates fuel depth := by
  match T with
  | .nil => exact fun m ts hm _ => .refl (hm.pending_feed_le ts (by simp))
  | .token t ht rest => exact CondTree.evaluates_token ht (rest.evaluates henv)
  | .branch c body tail rest =>
    exact CondTree.evaluates_branch henv c (body.evaluates henv) (tail.evaluates henv)
      (rest.evaluates henv)
  | .cases l body tail rest =>
    exact CondTree.evaluates_cases henv l (body.evaluates henv) (tail.evaluates henv)
      (tail.final_evaluates henv) (rest.evaluates henv)

theorem CondTail.evaluates (henv : HasConditionals env) (tail : CondTail env) :
    tail.Evaluates fuel depth := by
  match tail with
  | .endIf => exact CondTail.evaluates_endIf
  | .orElse body => exact CondTail.evaluates_orElse henv (body.evaluates henv)

theorem CaseTail.evaluates (henv : HasConditionals env) (tail : CaseTail env) :
    tail.Evaluates fuel depth := by
  match tail with
  | .last tail => exact CaseTail.evaluates_last henv (tail.evaluates henv)
  | .orCase body more =>
    exact CaseTail.evaluates_orCase henv (body.evaluates henv) (more.evaluates henv)

theorem CaseTail.final_evaluates (henv : HasConditionals env) (tail : CaseTail env) :
    tail.final.Evaluates fuel depth := by
  match tail with
  | .last tail => exact tail.evaluates henv
  | .orCase body more => exact more.final_evaluates henv

end

end Evaluation

/-- Reading the tokens of a tree with expansion delivers the tokens of the selected
    branches, in order.  The next reading begins with the expansions that are left,
    and goes on with the machine as it was in front of the tree, up to events: the
    stack of conditionals is the same as before. -/
theorem readTokens_flatten_eq_select (m : Machine) (henv : HasConditionals m.env)
    (T : CondTree m.env) (hmark : ∀ t, m.marked = some t → ∃ u us, T.flatten = u :: us ∧ u ≠ t)
    (hdepth : 0 < m.limits.expansionDepth)
    (hroom : m.input.pending + T.flatten.length ≤ m.limits.pushback) (fuel : Nat)
    (hfuel : T.flatten.length + 2 ≤ fuel) :
    let x := ofDepth fuel m.limits.expansionDepth
    ∃ m₁ m₂ k, (do push T.flatten; x.readTokens T.select.length : Eng _) m =
        .ok (T.select.map some) m₁ ∧
      k ≤ T.flatten.length ∧ x.next? m₁ = iterate x.nextStep (fuel - k) () m₂ ∧
      m₂.env.conditionals = m.env.conditionals ∧ ∃ es, m₂ = m.ready.note es := by
  obtain ⟨depth, hdepth⟩ := Nat.exists_eq_add_one.mpr hdepth
  rw [hdepth]
  intro x
  have hx : x.fuel = fuel := fuel_ofDepth fuel (depth + 1)
  obtain ⟨m₀, hpush, htoken⟩ := exists_push m T.flatten hmark
  have heval : T.Evaluates fuel depth := T.evaluates henv
  obtain ⟨-, n, es, hn, hreads⟩ := heval m [] ⟨fun _ => rfl, by simpa using hroom⟩ hfuel
  rw [List.append_nil] at hreads
  obtain ⟨m', k, htokens, hk, hnext⟩ := hreads.readTokens_eq (by rw [hx]; omega)
  -- Pushing the tokens is as good as having them in front of a machine without a mark.
  have hstart : x.next? m₀ = x.next? (m.ready.feed T.flatten) := by
    rw [next?_eq_iterate]
    exact x.iterate_nextStep_congr htoken (by omega)
  obtain ⟨m₁, htokens₁, hnext₁⟩ := exists_readTokens_congr hstart htokens
  refine ⟨m₁, m.ready.note es, k, ?_, by omega, ?_, rfl, es, rfl⟩
  · rw [bind_of_ok hpush]
    exact htokens₁
  · rw [hnext₁, hnext, hx]
    exact x.iterate_nextStep_congr (token?_feed_nil _) (by omega)

/-! ### An example of a tree -/

/-- An environment that has only the primitives of trees. -/
def conditionalEnv : Env Meaning :=
  { codes := Std.TreeMap.ofList (treePrimitives.map fun p => (p.name, Meaning.conditional p)) }

theorem hasConditionals_conditionalEnv : HasConditionals conditionalEnv := by
  intro p hp
  have hdistinct : (treePrimitives.map fun p => (p.name, Meaning.conditional p)).Pairwise
      fun a b => ¬ compare a.1 b.1 = .eq := by
    decide
  exact Std.TreeMap.getElem?_ofList_of_mem Std.ReflCmp.compare_self hdistinct
    (List.mem_map.mpr ⟨p, hp, rfl⟩)

/-- A letter in front of a tree. -/
def CondTree.letter (c : Char) (rest : CondTree conditionalEnv) : CondTree conditionalEnv :=
  .token (.letter (CharCode.ofChar c)) (unexpandable_of_not_isCommand _ rfl) rest

/-- The literals -1, +0 and 2. -/
def nestedLiterals : Literal × Literal × Literal :=
  (⟨['-'], ['1'], by simp, by simp, by decide, by decide⟩,
   ⟨['+'], ['0'], by simp, by simp, by decide, by decide⟩,
   ⟨[], ['2'], by simp, by simp, by decide, by decide⟩)

/-- \ifcase 2 a\or b\or\ifnum-1<+0 \iffalse c\else d\fi e\else\fi\else f\fi g -/
def nestedTree : CondTree conditionalEnv :=
  .cases nestedLiterals.2.2 (.letter 'a' .nil)
    (.orCase (.letter 'b' .nil) (.orCase
      (.branch (.number nestedLiterals.1 .lt nestedLiterals.2.1)
        (.branch .never (.letter 'c' .nil) (.orElse (.letter 'd' .nil)) (.letter 'e' .nil))
        (.orElse .nil) .nil)
      (.last (.orElse (.letter 'f' .nil)))))
    (.letter 'g' .nil)

theorem readTokens_flatten_eq_select_nested :
    nestedTree.select = [.letter 100, .letter 101, .letter 103] ∧
    ∃ m₁ m₂ k, (do push nestedTree.flatten
                   (ofDepth 64 5000).readTokens nestedTree.select.length : Eng _)
        { env := conditionalEnv } = .ok (nestedTree.select.map some) m₁ ∧
      k ≤ nestedTree.flatten.length ∧
      (ofDepth 64 5000).next? m₁ = iterate (ofDepth 64 5000).nextStep (64 - k) () m₂ ∧
      m₂.env.conditionals = #[] ∧ ∃ es, m₂ = Machine.note { env := conditionalEnv } es :=
  ⟨by decide,
    readTokens_flatten_eq_select { env := conditionalEnv } hasConditionals_conditionalEnv
      nestedTree (fun _ h => nomatch h) (by decide) (by decide) 64 (by decide)⟩

end TexEngine
