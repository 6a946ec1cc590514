/-
  TexEngine.Proofs.Engine.BranchEnd

  Where a skipped branch ends.  `nesting` counts how many more conditionals some tokens open
  than they close; a branch ends at the first token that can end one and in front of which as
  many conditionals were closed as were opened (`EndsBranch`).

  The loop that skips carries the number of open conditionals.  This is the number in front of
  the skipped tokens and their nesting (`iterate_skipStep_of_not_endsBranch`); it is never
  negative, because the \fi that would make it so ends the branch.
-/
import TexEngine.Proofs.Engine.Branch
import TexEngine.Proofs.Engine.Legal.Operations

namespace TexEngine

open Eng

variable {env : Env Meaning} {m m₁ m' : Machine} {t : Token} {ts us : TokenList}

/-! ## Raw tokens -/

/-- Reading gives the tokens as they stand in the input, one after the other, and leads from
    the first machine to the second.  Marks are left alone. -/
inductive Machine.ReadsRaw : Machine → TokenList → Machine → Prop where
  | nil (m : Machine) : ReadsRaw m [] m
  | cons {t : Token} {ts : TokenList} {m m₁ m' : Machine} (h : rawToken m = .ok (some t) m₁)
      (rest : ReadsRaw m₁ ts m') : ReadsRaw m (t :: ts) m'

namespace Machine.ReadsRaw

theorem env_eq (h : m.ReadsRaw ts m') : m'.env = m.env := by
  induction h with
  | nil m => rfl
  | cons h _ ih => rw [ih, ← after_of_ok h, env_after_rawToken]

/-- A list is read as its parts, one after the other. -/
theorem exists_of_append (h : m.ReadsRaw (ts ++ us) m') :
    ∃ m₁, m.ReadsRaw ts m₁ ∧ m₁.ReadsRaw us m' := by
  induction ts generalizing m with
  | nil => exact ⟨m, .nil m, h⟩
  | cons t ts ih =>
    cases h with
    | cons h rest =>
      obtain ⟨m₁, hts, hus⟩ := ih rest
      exact ⟨m₁, .cons h hts, hus⟩

/-- Tokens in front of the input are next. -/
theorem of_feed (m : Machine) (ts us : TokenList) :
    (m.feed (ts ++ us)).ReadsRaw ts (m.feed us) := by
  induction ts with
  | nil => exact .nil _
  | cons t ts ih => exact .cons (rawToken_feed_cons m t (ts ++ us)) ih

end Machine.ReadsRaw

namespace Expander

/-! ## Nesting -/

/-- The token opens a conditional. -/
def opens (env : Env Meaning) (t : Token) : Bool :=
  match conditionalIn env t with
  | some (.test _) => true
  | some .ifCase => true
  | _ => false

/-- The token closes a conditional. -/
def closes (env : Env Meaning) (t : Token) : Bool :=
  conditionalIn env t == some .endIf

/-- How many more conditionals the tokens open than they close. -/
def nesting (env : Env Meaning) (ts : TokenList) : Int :=
  ts.countP (opens env) - ts.countP (closes env)

/-- How a branch ends at the token, if it can end there. -/
def branchEnd? (env : Env Meaning) (cases : Bool) (t : Token) : Option BranchEnd :=
  match conditionalIn env t with
  | some .endIf => some .endIf
  | some .orElse => some .orElse
  | some .orCase => if cases then some .orCase else none
  | _ => none

/-- With `depth` open conditionals in front of the tokens, no conditional is open in front of
    the token at the index, and this token ends a branch. -/
def EndsBranch (env : Env Meaning) (cases : Bool) (depth : Nat) (ts : TokenList) (k : Nat)
    (e : BranchEnd) : Prop :=
  depth + nesting env (ts.take k) = 0 ∧ ts[k]?.bind (branchEnd? env cases) = some e

theorem nesting_cons (env : Env Meaning) (t : Token) (ts : TokenList) :
    nesting env (t :: ts) = nesting env [t] + nesting env ts := by
  simp only [nesting, List.countP_cons, List.countP_nil]
  omega

theorem nesting_singleton (env : Env Meaning) (t : Token) :
    nesting env [t] = (if opens env t then 1 else 0) - if closes env t then 1 else 0 := by
  simp only [nesting, List.countP_cons, List.countP_nil]
  split <;> split <;> rfl

/-- A token ends the branch if no conditional is open and it can, and otherwise it opens or
    closes as many conditionals as its nesting says. -/
theorem tokenOutcome_cases (env : Env Meaning) (cases : Bool) (t : Token) (depth : Nat) :
    (∃ e, depth = 0 ∧ branchEnd? env cases t = some e ∧ tokenOutcome env cases t depth = .done e) ∨
      (depth = 0 → branchEnd? env cases t = none) ∧
        ∃ depth' : Nat, (depth' : Int) = depth + nesting env [t] ∧
          tokenOutcome env cases t depth = .again depth' := by
  -- A token ends the branch at depth 0 only; elsewhere it changes the depth by what it opens or
  -- closes, which for \else and \or is nothing.
  cases hp : conditionalIn env t with
  | none =>
    simp only [tokenOutcome, branchEnd?, nesting_singleton, opens, closes, hp]
    exact .inr ⟨fun _ => True.intro, depth, by simp, rfl⟩
  | some p =>
    simp only [tokenOutcome, branchEnd?, nesting_singleton, opens, closes, hp]
    cases p with
    | test c => exact .inr ⟨fun _ => rfl, depth + 1, by simp, rfl⟩
    | ifCase => exact .inr ⟨fun _ => rfl, depth + 1, by simp, rfl⟩
    | orElse =>
      cases depth with
      | zero => exact .inl ⟨_, rfl, rfl, rfl⟩
      | succ depth => exact .inr ⟨by simp, depth + 1, by simp, rfl⟩
    | orCase =>
      cases depth with
      | zero =>
        cases cases with
        | true => exact .inl ⟨_, rfl, rfl, rfl⟩
        | false => exact .inr ⟨fun _ => rfl, 0, by simp, rfl⟩
      | succ depth => exact .inr ⟨by simp, depth + 1, by simp, rfl⟩
    | endIf =>
      cases depth with
      | zero => exact .inl ⟨_, rfl, rfl, rfl⟩
      | succ depth => exact .inr ⟨by simp, depth, by simp, rfl⟩

namespace EndsBranch

variable {cases : Bool} {depth depth' k : Nat} {e : BranchEnd}

theorem cons_zero :
    EndsBranch env cases depth (t :: ts) 0 e ↔ depth = 0 ∧ branchEnd? env cases t = some e := by
  simp [EndsBranch, nesting]

theorem cons_succ (h : (depth' : Int) = depth + nesting env [t]) :
    EndsBranch env cases depth (t :: ts) (k + 1) e ↔ EndsBranch env cases depth' ts k e := by
  unfold EndsBranch
  rw [List.take_succ_cons, nesting_cons, h, List.getElem?_cons_succ, Int.add_assoc]

theorem lt_length (h : EndsBranch env cases depth ts k e) : k < ts.length := by
  obtain ⟨t, ht, -⟩ := Option.bind_eq_some_iff.mp h.2
  exact (List.getElem?_eq_some_iff.mp ht).1

/-- What ends a branch in the first tokens of a list does so in the list. -/
theorem of_take {n : Nat} (h : EndsBranch env cases depth (ts.take n) k e) :
    EndsBranch env cases depth ts k e := by
  have hk := h.lt_length
  rw [List.length_take] at hk
  obtain ⟨hdepth, hend⟩ := h
  rw [List.take_take, Nat.min_eq_left (by omega)] at hdepth
  rw [List.getElem?_take_of_lt (by omega)] at hend
  exact ⟨hdepth, hend⟩

end EndsBranch

/-! ## Skipping -/

/-- Tokens that do not end the branch are passed over.  The number of open conditionals is
    carried along. -/
theorem iterate_skipStep_of_not_endsBranch (i : Nat) (cases : Bool) (n : Nat) {depth : Nat}
    (hread : m.ReadsRaw ts m') (hnone : ∀ k e, ¬EndsBranch m.env cases depth ts k e) :
    ∃ depth' : Nat, (depth' : Int) = depth + nesting m.env ts ∧
      iterate (skipStep i cases) (n + ts.length) depth m =
        iterate (skipStep i cases) n depth' m' := by
  induction hread generalizing depth with
  | nil m => exact ⟨depth, by simp [nesting], rfl⟩
  | @cons t ts m m₁ m' h rest ih =>
    have henv : m₁.env = m.env := by rw [← after_of_ok h, env_after_rawToken]
    have hstep := skipStep_of_rawToken i cases depth h
    rw [henv] at hstep
    obtain ⟨e, hdepth, hend, -⟩ | ⟨-, depth₁, hdepth₁, hagain⟩ :=
      tokenOutcome_cases m.env cases t depth
    · exact absurd (EndsBranch.cons_zero.mpr ⟨hdepth, hend⟩) (hnone 0 e)
    · obtain ⟨depth', hdepth', hloop⟩ := ih fun k e hk =>
        hnone (k + 1) e ((EndsBranch.cons_succ hdepth₁).mpr (henv ▸ hk))
      refine ⟨depth', ?_, ?_⟩
      · rw [hdepth', hdepth₁, henv, nesting_cons m.env t ts, Int.add_assoc]
      · rw [List.length_cons, ← Nat.add_assoc, iterate_of_again (hstep.trans (by rw [hagain])),
          hloop]

/-- A token that ends the branch ends the loop. -/
theorem skipStep_of_branchEnd? (i : Nat) {cases : Bool} {e : BranchEnd}
    (hread : rawToken m = .ok (some t) m₁) (hend : branchEnd? m₁.env cases t = some e) :
    skipStep i cases 0 m = .ok (.done e) m₁ := by
  rw [skipStep_of_rawToken i cases 0 hread]
  obtain ⟨e', -, hend', hdone⟩ | ⟨hnone, -⟩ := tokenOutcome_cases m₁.env cases t 0
  · obtain rfl : e = e' := Option.some.inj (hend.symm.trans hend')
    rw [hdone]
  · rw [hnone rfl] at hend
    contradiction

/-- Where the first of the tokens that end the branch is the last one, skipping reads them
    all. -/
theorem skipBranch_of_endsBranch (x : Expander) (i : Nat) {cases : Bool} {e : BranchEnd}
    (hread : m.ReadsRaw (ts ++ [t]) m') (hnone : ∀ k e, ¬EndsBranch m.env cases 0 ts k e)
    (hdepth : nesting m.env ts = 0) (hend : branchEnd? m.env cases t = some e)
    (hfuel : ts.length < x.fuel) : x.skipBranch i cases m = .ok e m' := by
  obtain ⟨m₀, hbefore, hlast⟩ := hread.exists_of_append
  obtain ⟨rest, hrounds⟩ : ∃ rest, x.fuel = rest + 1 + ts.length :=
    ⟨x.fuel - 1 - ts.length, by omega⟩
  obtain ⟨depth, hdepth', hloop⟩ :=
    iterate_skipStep_of_not_endsBranch i cases (rest + 1) hbefore hnone
  obtain rfl : depth = 0 := by omega
  have henv : m'.env = m.env := hread.env_eq
  cases hlast with
  | cons hread hnil =>
    cases hnil
    rw [skipBranch_eq_iterate, hrounds, hloop]
    exact iterate_of_done (skipStep_of_branchEnd? i hread (henv ▸ hend)) rest

/-- Skipping stops behind the first token that ends the branch, and says how the branch ends.
    Meanings are those where skipping begins, and nothing is expanded.  If no token ends the
    branch, the end of the input is an error; other faults of the input are passed on. -/
theorem skipBranch_stops_at_first (x : Expander) (i : Nat) (cases : Bool)
    (hread : m.ReadsRaw ts m') (hfuel : ts.length < x.fuel) :
    (∀ k e, EndsBranch m.env cases 0 ts k e → (∀ j < k, ∀ e', ¬EndsBranch m.env cases 0 ts j e') →
      ∃ m₁, m.ReadsRaw (ts.take (k + 1)) m₁ ∧ m₁.ReadsRaw (ts.drop (k + 1)) m' ∧
        x.skipBranch i cases m = .ok e m₁) ∧
    ((∀ k e, ¬EndsBranch m.env cases 0 ts k e) →
      (∀ m₁ c, rawToken m' = .ok none m₁ → m.env.conditionals[i]? = some c →
        x.skipBranch i cases m =
          .error (m₁.input.annotate (.tex
            { kind := .runawayConditional,
              details := ["\\" ++ c.primitive, "opened at", c.locator.text] })) m₁) ∧
      ∀ m₁ f, rawToken m' = .error f m₁ → x.skipBranch i cases m = .error f m₁) := by
  constructor
  · -- The tokens in front of the end are skipped like a branch without one.
    intro k e hend hfirst
    have hk := hend.lt_length
    obtain ⟨t, ht, hbranch⟩ := Option.bind_eq_some_iff.mp hend.2
    have hsplit : ts.take (k + 1) = ts.take k ++ [t] := by
      rw [List.take_add_one, ht]
      rfl
    have hnone : ∀ j e', ¬EndsBranch m.env cases 0 (ts.take k) j e' := by
      intro j e' hj
      have hlt := hj.lt_length
      rw [List.length_take] at hlt
      exact hfirst j (by omega) e' hj.of_take
    -- Nothing is open in front of the token that ends the branch.
    have hdepth : nesting m.env (ts.take k) = 0 := by
      have := hend.1
      omega
    rw [← List.take_append_drop (k + 1) ts] at hread
    obtain ⟨m₁, hskipped, hrest⟩ := hread.exists_of_append
    refine ⟨m₁, hskipped, hrest, ?_⟩
    rw [hsplit] at hskipped
    refine skipBranch_of_endsBranch x i hskipped hnone hdepth hbranch ?_
    rw [List.length_take]
    omega
  · -- All tokens are skipped, and the reading behind them decides.
    intro hnone
    obtain ⟨rest, hrounds⟩ : ∃ rest, x.fuel = rest + 1 + ts.length :=
      ⟨x.fuel - 1 - ts.length, by omega⟩
    obtain ⟨depth, -, hloop⟩ := iterate_skipStep_of_not_endsBranch i cases (rest + 1) hread hnone
    rw [skipBranch_eq_iterate, hrounds, hloop]
    refine ⟨fun m₁ c hend hc => ?_, fun m₁ f hfault => ?_⟩
    · have henv : m₁.env = m.env := by
        rw [← after_of_ok hend, env_after_rawToken, hread.env_eq]
      apply bind_of_error
      rw [skipStep, bind_of_ok hend]
      dsimp only
      rw [bind_of_ok (env_apply m₁), henv, hc]
      rfl
    · apply bind_of_error
      rw [skipStep]
      exact bind_of_error hfault _

/-- A conditional inside of the branch, a macro whose body is not looked at, and another name
    of \else. -/
theorem skipBranch_stops_at_first_alias :
    let env : Env Meaning :=
      { codes := Std.TreeMap.ofList [("iftrue", Meaning.conditional (.test .always)),
          ("else", .conditional .orElse), ("or", .conditional .orCase),
          ("fi", .conditional .endIf), ("otherwise", .conditional .orElse),
          ("m", .defined { body := [.cs "fi"] })] }
    let ts : TokenList :=
      [.cs "or", .cs "iftrue", .cs "else", .cs "m", .cs "fi", .cs "otherwise", .letter 97]
    let m : Machine := Machine.feed { env } ts
    m.ReadsRaw ts (Machine.feed { env } []) ∧ ts.length < (ofDepth 20 0).fuel ∧
      EndsBranch env false 0 ts 5 .orElse ∧ (∀ j < 5, ∀ e, ¬EndsBranch env false 0 ts j e) ∧
      ∃ m₁, m.ReadsRaw (ts.take 6) m₁ ∧ m₁.ReadsRaw [.letter 97] (Machine.feed { env } []) ∧
        (ofDepth 20 0).skipBranch 0 false m = .ok .orElse m₁ := by
  intro env ts m
  have hread : m.ReadsRaw ts (Machine.feed { env } []) := Machine.ReadsRaw.of_feed { env } ts []
  have hfuel : ts.length < (ofDepth 20 0).fuel := by decide
  have hend : EndsBranch env false 0 ts 5 .orElse := by
    unfold EndsBranch
    decide
  have hfirst : ∀ j < 5, ∀ e, ¬EndsBranch env false 0 ts j e := by
    have hall : ∀ j < 5, nesting env (ts.take j) ≠ 0 ∨
        ts[j]?.bind (branchEnd? env false) = none := by
      decide
    intro j hj e hends
    obtain hopen | hnone := hall j hj
    · exact hopen (by simpa using hends.1)
    · exact nomatch hnone.symm.trans hends.2
  exact ⟨hread, hfuel, hend, hfirst,
    (skipBranch_stops_at_first (ofDepth 20 0) 0 false hread hfuel).1 5 .orElse hend hfirst⟩

end Expander

end TexEngine
