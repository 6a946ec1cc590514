/-
  TexEngine.Proofs.Engine.Arguments

  Reading the arguments of a macro call.  A balanced list is passed over whatever
  braces are open around it, so an argument in braces ends at its own closing
  brace.  In front of delimiters the counter of tokens starts again behind this
  brace, so the delimiters are found right there and not earlier, even if they
  also occur in the argument.

  The main statements are `undelimitedArgument_group` and `delimitedArgument_group`.
-/
import TexEngine.Engine.Arguments
import TexEngine.Proofs.Engine.Reading

namespace TexEngine

open Eng

/-! ## Balanced lists -/

/-- Opening and closing braces match. -/
inductive Balanced : TokenList → Prop where
  | nil : Balanced []
  | token {t : Token} {ts : TokenList} (hopen : t.hasCat .beginGroup = false)
      (hclose : t.hasCat .endGroup = false) (h : Balanced ts) : Balanced (t :: ts)
  | group (left right : CharCode) {ts us : TokenList} (hts : Balanced ts) (hus : Balanced us) :
      Balanced (.char left .beginGroup :: (ts ++ .char right .endGroup :: us))

/-- A balanced list in braces. -/
structure Braced where
  left : CharCode
  right : CharCode
  inner : TokenList
  balanced : Balanced inner

/-- The tokens of a group, with its braces. -/
def Braced.tokens (g : Braced) : TokenList :=
  .char g.left .beginGroup :: (g.inner ++ [.char g.right .endGroup])

theorem braceDepth?_of_not_brace {t : Token} (hopen : t.hasCat .beginGroup = false)
    (hclose : t.hasCat .endGroup = false) (depth : Nat) : braceDepth? depth t = some depth := by
  simp [braceDepth?, hopen, hclose]

theorem braceDepth?_open (depth : Nat) (c : CharCode) :
    braceDepth? depth (.char c .beginGroup) = some (depth + 1) := rfl

theorem braceDepth?_close (depth : Nat) (c : CharCode) :
    braceDepth? (depth + 1) (.char c .endGroup) = some depth := rfl

/-- A balanced list inside of braces does not close them. -/
theorem Balanced.staysOpen_append {ts : TokenList} (h : Balanced ts) (depth : Nat)
    (us : TokenList) : staysOpen (depth + 1 : Nat) (ts ++ us) = staysOpen (depth + 1 : Nat) us := by
  induction h generalizing depth us with
  | nil => rfl
  | token hopen hclose _ ih =>
    rw [List.cons_append, staysOpen, hopen, hclose]
    exact ih depth us
  | @group left right ts vs _ _ ihts ihvs =>
    -- The inner group goes one level down and up again, never below its own level.
    have hopen : staysOpen (depth + 1 : Nat) (.char left .beginGroup ::
        (ts ++ .char right .endGroup :: (vs ++ us))) =
        staysOpen (depth + 1 + 1 : Nat) (ts ++ .char right .endGroup :: (vs ++ us)) := rfl
    have hdepth : ((depth + 1 + 1 : Nat) : Int) - 1 = (depth + 1 : Nat) := by omega
    have hclose : staysOpen (depth + 1 + 1 : Nat) (.char right .endGroup :: (vs ++ us)) =
        staysOpen (depth + 1 : Nat) (vs ++ us) := by
      have hne : (((depth + 1 + 1 : Nat) : Int) == 1) = false := by
        rw [beq_eq_false_iff_ne]
        omega
      rw [staysOpen]
      simp only [Token.hasCat, hne, hdepth]
      rfl
    rw [List.cons_append, List.append_assoc, List.cons_append, hopen, ihts, hclose, ihvs]

/-- A group loses its braces. -/
theorem Braced.stripGroup_tokens (g : Braced) : stripGroup g.tokens = g.inner := by
  have hopen : staysOpen 0 g.tokens =
      staysOpen (0 + 1 : Nat) (g.inner ++ [.char g.right .endGroup]) :=
    rfl
  have hlast : g.tokens.getLast? = some (.char g.right .endGroup) := by
    rw [tokens, ← List.cons_append, List.getLast?_append]
    rfl
  have hsingle : isSingleGroup g.tokens = true := by
    unfold isSingleGroup
    rw [hopen, g.balanced.staysOpen_append, hlast]
    simp [tokens, Token.hasCat, staysOpen]
  rw [stripGroup, if_pos hsingle]
  simp [tokens]

theorem stripGroup_subset (ts : TokenList) : stripGroup ts ⊆ ts := by
  unfold stripGroup
  split
  · exact fun t ht => List.mem_of_mem_drop (List.dropLast_subset _ ht)
  · exact List.Subset.refl ts

namespace MacroDef

/-! ## Substitution -/

/-- What holds of the tokens of all arguments, and of the tokens of the body that are no
    parameters, holds of the tokens that replace a call. -/
theorem forall_mem_substitute {p : Token → Prop} {args : List TokenList}
    (hargs : ∀ arg ∈ args, ∀ t ∈ arg, p t) {body : TokenList}
    (hbody : ∀ t ∈ body, t.isParam = false → p t) : ∀ t ∈ substitute args body, p t := by
  intro t ht
  obtain ⟨u, hu, htu⟩ := List.mem_flatMap.mp ht
  split at htu
  · rename_i k
    rw [List.getD_eq_getElem?_getD] at htu
    cases harg : args[k - 1]? with
    | none => simp [harg] at htu
    | some arg =>
      rw [harg] at htu
      exact hargs arg (List.mem_of_getElem? harg) t htu
  · rename_i hparam
    rw [List.mem_singleton.mp htu]
    refine hbody u hu ?_
    cases u with
    | param k => exact absurd rfl (hparam k)
    | _ => rfl

/-- The second list is the first one with an argument for each reference: a reference to the
    parameter `k + 1` gives the argument with index `k`, and all other tokens stay. -/
inductive Substituted (args : List TokenList) : TokenList → TokenList → Prop where
  | nil : Substituted args [] []
  | reference {k : Nat} {arg body ts : TokenList} (harg : args[k]? = some arg)
      (h : Substituted args body ts) : Substituted args (.param (k + 1) :: body) (arg ++ ts)
  | token {t : Token} {body ts : TokenList} (ht : t.isParam = false)
      (h : Substituted args body ts) : Substituted args (t :: body) (t :: ts)

theorem substitute_param (args : List TokenList) (k : Nat) (body : TokenList) :
    substitute args (.param (k + 1) :: body) = args.getD k [] ++ substitute args body :=
  rfl

theorem substitute_token (args : List TokenList) {t : Token} (ht : t.isParam = false)
    (body : TokenList) : substitute args (t :: body) = t :: substitute args body := by
  cases t with
  | param k => contradiction
  | _ => rfl

/-- There is one such list for a body whose references all have an argument. -/
theorem substituted_iff {args : List TokenList} {body ts : TokenList}
    (hbody : ∀ k, .param k ∈ body → 1 ≤ k ∧ k ≤ args.length) :
    Substituted args body ts ↔ ts = substitute args body := by
  constructor
  · intro h
    induction h with
    | nil => rfl
    | reference harg h ih =>
      rw [substitute_param, List.getD_eq_getElem?_getD, harg,
        ih fun k hk => hbody k (List.mem_cons_of_mem _ hk)]
      rfl
    | token ht h ih =>
      rw [substitute_token args ht, ih fun k hk => hbody k (List.mem_cons_of_mem _ hk)]
  · rintro rfl
    induction body with
    | nil => exact .nil
    | cons t body ih =>
      have hrest := ih fun k hk => hbody k (List.mem_cons_of_mem _ hk)
      cases hparam : t.isParam with
      | false =>
        rw [substitute_token args hparam]
        exact .token hparam hrest
      | true =>
        obtain ⟨k, rfl⟩ : ∃ k, t = .param k := by cases t <;> simp_all [Token.isParam]
        obtain ⟨hpos, hle⟩ := hbody k List.mem_cons_self
        obtain ⟨k, rfl⟩ := Nat.exists_eq_add_one_of_ne_zero (Nat.ne_of_gt hpos)
        have harg : args[k]? = some args[k] := List.getElem?_eq_getElem hle
        rw [substitute_param, List.getD_eq_getElem?_getD, harg, Option.getD_some]
        exact .reference harg hrest

/-! ## Tokens of arguments -/

/-- The token may stand in an argument of the macro: it is no \par, unless the
    macro is long, and no outer macro. -/
structure Accepts (d : MacroDef) (env : Env Meaning) (t : Token) : Prop where
  not_par : d.isLong = false → t ≠ .cs "par"
  not_outer : ∀ o, meaningIn env t = some (.defined o) → o.isOuter = false

theorem accepts_of_not_isCommand (d : MacroDef) (env : Env Meaning) {t : Token}
    (ht : t.isCommand = false) : d.Accepts env t := by
  constructor
  · rintro - rfl
    contradiction
  · intro o ho
    have hnone : meaningIn env t = none := by
      have hrelax : t ≠ .frozenRelax := by
        rintro rfl
        contradiction
      simp only [Token.isCommand, Bool.or_eq_false_iff] at ht
      simp [meaningIn, hrelax, Env.meaning?, ht.1, ht.2]
    rw [hnone] at ho
    contradiction

theorem checkArgument_of_accepts {d : MacroDef} {t : Token} (call : Token) (m : Machine)
    (h : d.Accepts m.env t) : d.checkArgument call t m = .ok () m := by
  have hpar : (!d.isLong && t.isCs && t.name == "par") = false := by
    cases hlong : d.isLong with
    | true => rfl
    | false =>
      have hne := h.not_par hlong
      cases t <;> simp_all [Token.isCs, Token.name]
  unfold checkArgument
  by_cases hcommand : t.isCommand = true
  · simp only [hcommand, Bool.not_true, hpar, Bool.false_eq_true, if_false]
    rw [bind_of_ok (meaning?_apply t m)]
    cases hmeaning : meaningIn m.env t with
    | none => rfl
    | some μ =>
      cases μ with
      | defined o =>
        simp only [h.not_outer o hmeaning]
        rfl
      | _ => rfl
  · simp only [Bool.not_eq_true] at hcommand
    simp only [hcommand]
    rfl

/-! ## Arguments without delimiters -/

variable {d : MacroDef} {call : Token}

/-- One round of `groupArgument`. -/
def groupStep (d : MacroDef) (call : Token) :
    Nat × TokenList → Eng (Step (Nat × TokenList) TokenList) :=
  fun (depth, seen) => do
    let t ← expect (← token?) .runawayArgument [call.text]
    d.checkArgument call t
    match braceDepth? depth t with
    | none => return .done seen.reverse
    | some depth => return .again (depth, t :: seen)

theorem groupArgument_eq_iterate (fuel : Nat) (d : MacroDef) (call : Token) :
    groupArgument fuel d call = iterate (d.groupStep call) fuel (0, []) := rfl

theorem groupStep_again {t : Token} (m : Machine) (ts : TokenList) (h : d.Accepts m.env t)
    {depth depth' : Nat} (hdepth : braceDepth? depth t = some depth') (seen : TokenList) :
    d.groupStep call (depth, seen) (m.feed (t :: ts)) =
      .ok (.again (depth', t :: seen)) ((m.pass t).feed ts) := by
  unfold groupStep
  dsimp only
  rw [bind_of_ok (token?_feed m t ts), bind_of_ok (expect_some ..),
    bind_of_ok (checkArgument_of_accepts call ((m.pass t).feed ts) h), hdepth]
  rfl

theorem groupStep_close (c : CharCode) (m : Machine) (ts seen : TokenList) :
    d.groupStep call (0, seen) (m.feed (.char c .endGroup :: ts)) =
      .ok (.done seen.reverse) ((m.pass (.char c .endGroup)).feed ts) := by
  unfold groupStep
  dsimp only
  rw [bind_of_ok (token?_feed m _ ts), bind_of_ok (expect_some ..),
    bind_of_ok (checkArgument_of_accepts call _ (d.accepts_of_not_isCommand _ rfl))]
  rfl

/-- A balanced list is passed over at every depth. -/
theorem iterate_groupStep {ts : TokenList} (hts : Balanced ts) (m : Machine)
    (hacc : ∀ t ∈ ts, d.Accepts m.env t) (n depth : Nat) (seen us : TokenList) :
    iterate (d.groupStep call) (n + ts.length) (depth, seen) (m.feed (ts ++ us)) =
      iterate (d.groupStep call) n (depth, ts.reverse ++ seen) ((m.passAll ts).feed us) := by
  induction hts generalizing m n depth seen us with
  | nil => rfl
  | token hopen hclose _ ih =>
    rw [List.forall_mem_cons] at hacc
    rw [List.cons_append, List.length_cons, ← Nat.add_assoc,
      iterate_of_again
        (groupStep_again m _ hacc.1 (braceDepth?_of_not_brace hopen hclose depth) seen),
      ih (m.pass _) hacc.2, List.reverse_cons, List.append_assoc]
    rfl
  | @group left right ts vs _ _ ihts ihvs =>
    have hinner : ∀ t ∈ ts, d.Accepts m.env t := fun t ht => hacc t (by simp [ht])
    have houter : ∀ t ∈ vs, d.Accepts m.env t := fun t ht => hacc t (by simp [ht])
    have hrounds : n + (Token.char left .beginGroup :: (ts ++ .char right .endGroup :: vs)).length =
        n + vs.length + 1 + ts.length + 1 := by
      simp only [List.length_cons, List.length_append]
      omega
    rw [hrounds, List.cons_append, List.append_assoc, List.cons_append,
      iterate_of_again (groupStep_again m _ (d.accepts_of_not_isCommand _ rfl)
        (braceDepth?_open depth left) seen),
      ihts (m.pass _) hinner,
      iterate_of_again (groupStep_again _ _ (d.accepts_of_not_isCommand _ rfl)
        (braceDepth?_close depth right) _),
      ihvs ((Machine.passAll _ ts).pass _) (by simpa using houter)]
    simp

/-- An argument in braces is read without them. -/
theorem groupArgument_feed (g : Braced) (m : Machine) (hacc : ∀ t ∈ g.inner, d.Accepts m.env t)
    (fuel : Nat) (hfuel : g.inner.length < fuel) (us : TokenList) :
    groupArgument fuel d call (m.feed (g.inner ++ .char g.right .endGroup :: us)) =
      .ok g.inner ((m.passAll (g.inner ++ [.char g.right .endGroup])).feed us) := by
  obtain ⟨n, rfl⟩ := Nat.exists_eq_add_of_lt hfuel
  have hrounds : g.inner.length + n + 1 = n + 1 + g.inner.length := by omega
  rw [groupArgument_eq_iterate, hrounds, iterate_groupStep g.balanced m hacc,
    iterate_of_done (groupStep_close g.right _ us _)]
  simp

/-- One round of the loop that skips spaces in front of an argument. -/
def firstStep (call : Token) (_ : Unit) : Eng (Step Unit Token) := do
  let t ← expect (← token?) .runawayArgument [call.text]
  return if t.hasCat .space then .again () else .done t

theorem undelimitedArgument_eq (fuel : Nat) (d : MacroDef) (call : Token) :
    undelimitedArgument fuel d call = (do
      let t ← iterate (firstStep call) fuel ()
      d.checkArgument call t
      if t.hasCat .beginGroup then groupArgument fuel d call
      else if t.hasCat .endGroup then failAt .extraRightBrace t [call.text]
      else return [t]) := rfl

theorem undelimitedArgument_group (g : Braced) (m : Machine)
    (hacc : ∀ t ∈ g.inner, d.Accepts m.env t) (fuel : Nat) (hfuel : g.tokens.length ≤ fuel)
    (us : TokenList) :
    undelimitedArgument fuel d call (m.feed (g.tokens ++ us)) =
      .ok g.inner ((m.passAll g.tokens).feed us) := by
  have hlength : g.tokens.length = g.inner.length + 2 := by simp [Braced.tokens]
  obtain ⟨n, rfl⟩ : ∃ n, fuel = n + 1 := ⟨fuel - 1, by omega⟩
  let brace : Token := .char g.left .beginGroup
  let ts := g.inner ++ .char g.right .endGroup :: us
  have hinput : g.tokens ++ us = brace :: ts := by
    simp [Braced.tokens, brace, ts]
  have hfirst : firstStep call () (m.feed (brace :: ts)) =
      .ok (.done brace) ((m.pass brace).feed ts) := by
    unfold firstStep
    rw [bind_of_ok (token?_feed m brace ts)]
    rfl
  have hgroup : groupArgument (n + 1) d call ((m.pass brace).feed ts) = _ :=
    groupArgument_feed g (m.pass brace) hacc (n + 1) (by omega) us
  rw [hinput, undelimitedArgument_eq, bind_of_ok (iterate_of_done hfirst n),
    bind_of_ok (checkArgument_of_accepts call _ (d.accepts_of_not_isCommand _ rfl))]
  exact hgroup

/-! ## Arguments with delimiters -/

/-- One round of `delimitedArgument`. -/
def delimitedStep (d : MacroDef) (call : Token) (delims : TokenList) (a : Delimited) :
    Eng (Step Delimited TokenList) := do
  let t ← expect (← token?) .runawayArgument [call.text]
  d.checkArgument call t
  let seen := t :: a.seen
  let since := a.since + 1
  if a.depth = 0 ∧ delims.length ≤ since ∧ seen.take delims.length = delims.reverse then
    return .done (seen.drop delims.length).reverse
  match braceDepth? a.depth t with
  | none => failAt .extraRightBrace t [call.text]
  | some depth =>
    let since := if t.hasCat .endGroup && depth = 0 then 0 else since
    return .again { seen, depth, since }

theorem delimitedArgument_eq (fuel : Nat) (d : MacroDef) (call : Token) (delims : TokenList) :
    delimitedArgument fuel d call delims = (do
      let arg ← iterate (d.delimitedStep call delims) fuel {}
      return stripGroup arg) := rfl

variable {delims : TokenList}

/-- The delimiters are complete with the token `t`. -/
def Completes (delims : TokenList) (t : Token) (a : Delimited) : Prop :=
  a.depth = 0 ∧ delims.length ≤ a.since + 1 ∧
    (t :: a.seen).take delims.length = delims.reverse

theorem delimitedStep_again {t : Token} (m : Machine) (ts : TokenList) (h : d.Accepts m.env t)
    {seen : TokenList} {since depth depth' : Nat} (hdepth : braceDepth? depth t = some depth')
    (hearly : ¬ Completes delims t ⟨seen, depth, since⟩)
    (hkeep : (t.hasCat .endGroup && depth' = 0) = false) :
    d.delimitedStep call delims ⟨seen, depth, since⟩ (m.feed (t :: ts)) =
      .ok (.again ⟨t :: seen, depth', since + 1⟩) ((m.pass t).feed ts) := by
  unfold delimitedStep
  rw [bind_of_ok (token?_feed m t ts), bind_of_ok (expect_some ..),
    bind_of_ok (checkArgument_of_accepts call ((m.pass t).feed ts) h)]
  unfold Completes at hearly
  dsimp only at hearly ⊢
  rw [if_neg hearly, hdepth]
  dsimp only
  rw [hkeep]
  rfl

/-- The brace that closes the argument starts the counter again. -/
theorem delimitedStep_close (c : CharCode) (m : Machine) (seen ts : TokenList) (since : Nat) :
    d.delimitedStep call delims ⟨seen, 1, since⟩ (m.feed (.char c .endGroup :: ts)) =
      .ok (.again ⟨.char c .endGroup :: seen, 0, 0⟩) ((m.pass (.char c .endGroup)).feed ts) := by
  unfold delimitedStep
  rw [bind_of_ok (token?_feed m _ ts), bind_of_ok (expect_some ..),
    bind_of_ok (checkArgument_of_accepts call _ (d.accepts_of_not_isCommand _ rfl))]
  dsimp only
  rw [if_neg (by simp), braceDepth?_close]
  rfl

theorem delimitedStep_done {t : Token} (m : Machine) (ts : TokenList) (h : d.Accepts m.env t)
    {a : Delimited} (hlast : Completes delims t a) :
    d.delimitedStep call delims a (m.feed (t :: ts)) =
      .ok (.done ((t :: a.seen).drop delims.length).reverse) ((m.pass t).feed ts) := by
  unfold delimitedStep
  rw [bind_of_ok (token?_feed m t ts), bind_of_ok (expect_some ..),
    bind_of_ok (checkArgument_of_accepts call ((m.pass t).feed ts) h)]
  unfold Completes at hlast
  dsimp only
  rw [if_pos hlast]
  rfl

/-- Inside of braces, delimiters are not looked for. -/
theorem not_completes_of_depth (t : Token) (seen : TokenList) (depth since : Nat) :
    ¬ Completes delims t ⟨seen, depth + 1, since⟩ := by
  rintro ⟨hdepth, -⟩
  exact absurd hdepth (Nat.succ_ne_zero depth)

/-- A balanced list in braces is passed over, whatever the delimiters are. -/
theorem iterate_delimitedStep_balanced {ts : TokenList} (hts : Balanced ts) (m : Machine)
    (hacc : ∀ t ∈ ts, d.Accepts m.env t) (n depth since : Nat) (seen us : TokenList) :
    iterate (d.delimitedStep call delims) (n + ts.length) ⟨seen, depth + 1, since⟩
        (m.feed (ts ++ us)) =
      iterate (d.delimitedStep call delims) n
        ⟨ts.reverse ++ seen, depth + 1, since + ts.length⟩ ((m.passAll ts).feed us) := by
  -- By induction on the balanced list: above depth 0 no delimiter counts, so every token is kept,
  -- and `since` only grows.
  induction hts generalizing m n depth since seen us with
  | nil => rfl
  | @token t ts hopen hclose _ ih =>
    rw [List.forall_mem_cons] at hacc
    have hsince : since + 1 + ts.length = since + (ts.length + 1) := by omega
    rw [List.cons_append, List.length_cons, ← Nat.add_assoc,
      iterate_of_again (delimitedStep_again m _ hacc.1 (braceDepth?_of_not_brace hopen hclose _)
        (not_completes_of_depth _ _ _ _) (by rw [hclose]; rfl)),
      ih (m.pass _) hacc.2, List.reverse_cons, List.append_assoc, hsince]
    rfl
  | @group left right ts vs _ _ ihts ihvs =>
    have hinner : ∀ t ∈ ts, d.Accepts m.env t := fun t ht => hacc t (by simp [ht])
    have houter : ∀ t ∈ vs, d.Accepts m.env t := fun t ht => hacc t (by simp [ht])
    have hlength : (Token.char left .beginGroup :: (ts ++ .char right .endGroup :: vs)).length =
        ts.length + vs.length + 2 := by
      simp only [List.length_cons, List.length_append]
      omega
    -- The rounds are those of the group, of its two braces and of what stands behind it.
    have hrounds : n + (ts.length + vs.length + 2) = n + vs.length + 1 + ts.length + 1 := by omega
    have hsince : since + 1 + ts.length + 1 + vs.length = since + (ts.length + vs.length + 2) := by
      omega
    rw [hlength, hrounds, List.cons_append, List.append_assoc, List.cons_append,
      iterate_of_again (delimitedStep_again m _ (d.accepts_of_not_isCommand _ rfl)
        (braceDepth?_open _ left) (not_completes_of_depth _ _ _ _) rfl),
      ihts (m.pass _) hinner,
      iterate_of_again (delimitedStep_again _ _ (d.accepts_of_not_isCommand _ rfl)
        (braceDepth?_close _ right) (not_completes_of_depth _ _ _ _) (by simp)),
      ihvs ((Machine.passAll _ ts).pass _) (by simpa using houter), hsince]
    simp

/-- The delimiters but the last one are read behind the argument. -/
theorem iterate_delimitedStep_delims {ds : TokenList}
    (hds : ∀ t ∈ ds, t.hasCat .beginGroup = false ∧ t.hasCat .endGroup = false) (m : Machine)
    (hacc : ∀ t ∈ ds, d.Accepts m.env t) (n since : Nat)
    (hsince : since + ds.length < delims.length) (seen us : TokenList) :
    iterate (d.delimitedStep call delims) (n + ds.length) ⟨seen, 0, since⟩ (m.feed (ds ++ us)) =
      iterate (d.delimitedStep call delims) n ⟨ds.reverse ++ seen, 0, since + ds.length⟩
        ((m.passAll ds).feed us) := by
  induction ds generalizing m since seen with
  | nil => rfl
  | cons t ds ih =>
    rw [List.forall_mem_cons] at hds hacc
    rw [List.length_cons] at hsince
    -- Too few tokens have been read since the argument was closed.
    have hearly : ¬ Completes delims t ⟨seen, 0, since⟩ := by
      rintro ⟨-, hlength, -⟩
      dsimp only at hlength
      omega
    have hrounds : since + 1 + ds.length = since + (ds.length + 1) := by omega
    rw [List.cons_append, List.length_cons, ← Nat.add_assoc,
      iterate_of_again (delimitedStep_again m _ hacc.1
        (braceDepth?_of_not_brace hds.1.1 hds.1.2 _) hearly (by rw [hds.1.2]; rfl)),
      ih hds.2 (m.pass t) hacc.2 (since + 1) (by omega), List.reverse_cons, List.append_assoc,
      hrounds]
    rfl

/-- An argument in braces is found in front of its delimiters. -/
theorem delimitedArgument_group (g : Braced) (ds : TokenList) (l : Token)
    (hds : ∀ t ∈ ds, t.hasCat .beginGroup = false ∧ t.hasCat .endGroup = false)
    (hl : ds = [] → l.hasCat .beginGroup = false) (m : Machine)
    (hacc : ∀ t ∈ g.inner ++ (ds ++ [l]), d.Accepts m.env t) (fuel : Nat)
    (hfuel : g.tokens.length + ds.length < fuel) (us : TokenList) :
    delimitedArgument fuel d call (ds ++ [l]) (m.feed (g.tokens ++ (ds ++ l :: us))) =
      .ok g.inner ((m.passAll (g.tokens ++ (ds ++ [l]))).feed us) := by
  let brace : Token := .char g.left .beginGroup
  let close : Token := .char g.right .endGroup
  have hlength : g.tokens.length = g.inner.length + 2 := by simp [Braced.tokens]
  obtain ⟨n, rfl⟩ := Nat.exists_eq_add_of_lt hfuel
  have hrounds : g.tokens.length + ds.length + n + 1 =
      n + 1 + ds.length + 1 + g.inner.length + 1 := by
    omega
  have hinput : g.tokens ++ (ds ++ l :: us) = brace :: (g.inner ++ close :: (ds ++ l :: us)) := by
    simp [Braced.tokens, brace, close]
  have hinner : ∀ t ∈ g.inner, d.Accepts m.env t := fun t ht => hacc t (by simp [ht])
  have hdelims : ∀ t ∈ ds, d.Accepts m.env t := fun t ht => hacc t (by simp [ht])
  -- The opening brace alone could only complete delimiters that consist of this brace.
  have hfirst : ¬ Completes (ds ++ [l]) brace ⟨[], 0, 0⟩ := by
    rintro ⟨-, hle, htake⟩
    cases ds with
    | nil =>
      have heq : l = brace := by simpa using htake.symm
      have hbrace := hl rfl
      rw [heq] at hbrace
      contradiction
    | cons t ds => simp at hle
  have hlast : Completes (ds ++ [l]) l
      ⟨ds.reverse ++ close :: (g.inner.reverse ++ [brace]), 0, 0 + ds.length⟩ := by
    refine ⟨rfl, by simp, ?_⟩
    simp
  have hloop : iterate (d.delimitedStep call (ds ++ [l])) (n + 1 + ds.length + 1 +
      g.inner.length + 1) {} (m.feed (brace :: (g.inner ++ close :: (ds ++ l :: us)))) =
      .ok g.tokens ((m.passAll (g.tokens ++ (ds ++ [l]))).feed us) := by
    rw [iterate_of_again (delimitedStep_again m _ (d.accepts_of_not_isCommand _ rfl)
        (braceDepth?_open 0 g.left) hfirst rfl),
      iterate_delimitedStep_balanced g.balanced (m.pass brace) hinner,
      iterate_of_again (delimitedStep_close g.right _ _ _ _),
      iterate_delimitedStep_delims hds ((Machine.passAll _ g.inner).pass close)
        (by simpa using hdelims) _ _ (by simp),
      iterate_of_done (delimitedStep_done _ _ (by simpa using hacc l (by simp)) hlast)]
    simp [Braced.tokens, brace, close]
  rw [hinput, delimitedArgument_eq, hrounds, bind_of_ok hloop, g.stripGroup_tokens]
  rfl

end MacroDef

end TexEngine
