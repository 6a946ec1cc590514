/-
  TexEngine.Proofs.Engine.Comparison

  Tests that compare two tokens.

  \ifx compares what the tokens mean.  A character means itself, a command what it was
  given as its meaning, and of a macro everything counts but the name with which it was
  defined.  So the test is whether one function, `Env.sense`, has equal values at the two
  tokens: an equivalence, and one in which a command that \let has given the meaning of a
  token is equivalent to this token.

  \if and \ifcat compare the characters that the tokens stand for (`Env.character?`).  A
  token that stands for no character is compared by the code 256 and the category 16, as if
  it were such a character.  No category has the number 16, but U+0100 has the code 256.
-/
import TexEngine.Engine.Assign
import TexEngine.Proofs.Engine.Reading
import TexEngine.Proofs.Env.Scopes

namespace TexEngine

open Eng

/-! ## What a token means -/

/-- Macros do the same if they differ in nothing but their names. -/
theorem MacroDef.same_iff (d e : MacroDef) :
    d.same e = true ↔ { d with name := "" } = { e with name := "" } := by
  simp only [same, Bool.and_eq_true, beq_iff_eq, MacroDef.mk.injEq, true_and]
  constructor
  · rintro ⟨⟨⟨⟨hlong, houter⟩, hprotected⟩, hpattern⟩, hbody⟩
    exact ⟨hpattern, hbody, hlong, houter, hprotected⟩
  · rintro ⟨hpattern, hbody, hlong, houter, hprotected⟩
    exact ⟨⟨⟨⟨hlong, houter⟩, hprotected⟩, hpattern⟩, hbody⟩

/-- The meaning without the name of a macro. -/
def Meaning.nameless : Meaning → Meaning
  | defined d => defined { d with name := "" }
  | μ => μ

/-- Meanings count as the same if nothing but names tells them apart. -/
theorem Meaning.same_iff (μ ν : Meaning) : μ.same ν = true ↔ μ.nameless = ν.nameless := by
  cases μ with
  | defined d =>
    cases ν with
    | defined e =>
      show d.same e = true ↔ _
      rw [MacroDef.same_iff]
      exact Meaning.defined.injEq .. ▸ Iff.rfl
    | _ => simp [same, nameless]
  | _ => cases ν <;> simp [same, nameless]

namespace Env

variable {env : Env Meaning}

/-- The meaning that \let copies: a character means itself. -/
def meaningOf (env : Env Meaning) (t : Token) : Option Meaning :=
  if t.isCommand then meaningIn env t else some (.charToken t)

/-- What \ifx compares. -/
def sense (env : Env Meaning) (t : Token) : Option Meaning :=
  (env.meaningOf t).map Meaning.nameless

theorem meaningOf_of_isCommand {t : Token} (ht : t.isCommand = true) :
    env.meaningOf t = meaningIn env t :=
  if_pos ht

theorem meaningOf_of_not_isCommand {t : Token} (ht : t.isCommand = false) :
    env.meaningOf t = some (.charToken t) :=
  if_neg (by simp [ht])

/-- Something has the sense of a character if it means this character. -/
theorem map_nameless_eq_charToken {μ? : Option Meaning} {c : Token} :
    μ?.map Meaning.nameless = some (.charToken c) ↔ μ? = some (.charToken c) := by
  cases μ? with
  | none => simp
  | some μ => cases μ <;> simp [Meaning.nameless]

end Env

namespace Expander

/-! ## The test of \ifx -/

theorem tokenMeaning_apply (t : Token) (m : Machine) :
    tokenMeaning t m = .ok (m.env.meaningOf t) m := by
  unfold tokenMeaning Env.meaningOf
  split
  · exact meaning?_apply t m
  · rfl

/-- The test compares senses.  Only two parameters would be compared otherwise. -/
theorem sameTokens_apply {a b : Token} (m : Machine)
    (h : a.isCommand = false → b.isCommand = false → a.isParam = false ∧ b.isParam = false) :
    sameTokens a b m = .ok (decide (m.env.sense a = m.env.sense b)) m := by
  unfold sameTokens Env.sense
  cases ha : a.isCommand with
  | true =>
    rw [Env.meaningOf_of_isCommand ha]
    cases hb : b.isCommand with
    | true =>
      rw [Env.meaningOf_of_isCommand hb]
      dsimp only
      rw [bind_of_ok (meaning?_apply a m), bind_of_ok (meaning?_apply b m)]
      cases meaningIn m.env a with
      | none => cases meaningIn m.env b <;> rfl
      | some μ =>
        cases meaningIn m.env b with
        | none => rfl
        | some ν =>
          have hsame : μ.same ν = decide (some μ.nameless = some ν.nameless) := by
            rw [Bool.eq_iff_iff, decide_eq_true_eq, Meaning.same_iff, Option.some_inj]
          exact congrArg (EStateM.Result.ok · m) hsame
    | false =>
      rw [Env.meaningOf_of_not_isCommand hb]
      refine (bind_of_ok (meaning?_apply a m) _).trans (congrArg (EStateM.Result.ok · m) ?_)
      rw [Bool.eq_iff_iff, beq_iff_eq, decide_eq_true_eq]
      exact Env.map_nameless_eq_charToken.symm
  | false =>
    rw [Env.meaningOf_of_not_isCommand ha]
    cases hb : b.isCommand with
    | true =>
      rw [Env.meaningOf_of_isCommand hb]
      refine (bind_of_ok (meaning?_apply b m) _).trans (congrArg (EStateM.Result.ok · m) ?_)
      rw [Bool.eq_iff_iff, beq_iff_eq, decide_eq_true_eq, eq_comm (b := Option.map _ _)]
      exact Env.map_nameless_eq_charToken.symm
    | false =>
      rw [Env.meaningOf_of_not_isCommand hb]
      obtain ⟨hpa, hpb⟩ := h ha hb
      -- Neither of them is a command or a parameter, so both are characters.
      cases a with
      | char c k =>
        cases b with
        | char d l =>
          refine congrArg (EStateM.Result.ok · m) ?_
          rw [Bool.eq_iff_iff, Bool.and_eq_true, beq_iff_eq, beq_iff_eq, decide_eq_true_eq]
          simp [Meaning.nameless, Token.code, Token.cat]
        | param i => contradiction
        | _ => contradiction
      | param i => contradiction
      | _ => contradiction

/-- Two tokens that stand in front of the input are the same for \ifx. -/
def Equates (x : Expander) (m : Machine) (a b : Token) : Prop :=
  ∃ m', x.test .sameMeaning (m.feed [a, b]) = .ok true m'

variable {x : Expander} {m : Machine} {a b : Token}

/-- The test takes the two tokens from the input, and always has an answer. -/
theorem test_sameMeaning_feed
    (h : a.isCommand = false → b.isCommand = false → a.isParam = false ∧ b.isParam = false) :
    x.test .sameMeaning (m.feed [a, b]) =
      .ok (decide (m.env.sense a = m.env.sense b)) (m.feed []) := by
  show (do
    let a ← expect (← rawToken) .runawayConditional []
    let b ← expect (← rawToken) .runawayConditional []
    sameTokens a b : Eng Bool) (m.feed [a, b]) = _
  rw [bind_of_ok (rawToken_feed_cons m a [b]), bind_of_ok (expect_some ..),
    bind_of_ok (rawToken_feed_cons m b []), bind_of_ok (expect_some ..)]
  exact sameTokens_apply (m.feed []) h

theorem equates_iff
    (h : a.isCommand = false → b.isCommand = false → a.isParam = false ∧ b.isParam = false) :
    x.Equates m a b ↔ m.env.sense a = m.env.sense b := by
  unfold Equates
  rw [test_sameMeaning_feed h]
  constructor
  · rintro ⟨m', hm'⟩
    injection hm' with hdecide
    exact of_decide_eq_true hdecide
  · intro hsense
    exact ⟨m.feed [], by rw [decide_eq_true hsense]⟩

end Expander

/-! ## Giving a token a meaning -/

namespace Env

theorem lookup_assign_self {μ : Type} (env : Env μ) (a : Assignment μ) (global : Bool) :
    (env.assign a global).lookup a.place = a.content env.blank := by
  rw [lookup_assign, Function.update_self]

theorem lookup_assign_of_ne {μ : Type} (env : Env μ) (a : Assignment μ) (global : Bool) {p : Place}
    (hp : p ≠ a.place) : (env.assign a global).lookup p = env.lookup p := by
  rw [lookup_assign, Function.update_of_ne hp]

/-- Where a control sequence is given a meaning. -/
theorem meaningIn_assign_code (env : Env Meaning) (name : String) (μ? : Option Meaning)
    (global : Bool) (t : Token) :
    meaningIn (env.assign (.code name μ?) global) t =
      if t = .cs name then μ? else meaningIn env t := by
  have hother : ∀ {p : Place}, p ≠ .code name →
      (env.assign (.code name μ?) global).lookup p = env.lookup p :=
    fun hp => env.lookup_assign_of_ne (.code name μ?) global hp
  cases t with
  | cs name' =>
    by_cases hname : name' = name
    · subst hname
      rw [if_pos rfl]
      exact env.lookup_assign_self (.code name' μ?) global
    · rw [if_neg (by simpa using hname)]
      exact hother (p := .code name') (by simpa using hname)
  | char c k =>
    rw [if_neg (by simp)]
    cases k with
    | active => exact hother (p := .active c) (by simp)
    | _ => rfl
  | frozenRelax => rfl
  | param i => rfl

/-- Where an active character is given a meaning. -/
theorem meaningIn_assign_active (env : Env Meaning) (c : CharCode) (μ? : Option Meaning)
    (global : Bool) (t : Token) :
    meaningIn (env.assign (.active c μ?) global) t =
      if t = .char c .active then μ? else meaningIn env t := by
  have hother : ∀ {p : Place}, p ≠ .active c →
      (env.assign (.active c μ?) global).lookup p = env.lookup p :=
    fun hp => env.lookup_assign_of_ne (.active c μ?) global hp
  cases t with
  | cs name =>
    rw [if_neg (by simp)]
    exact hother (p := .code name) (by simp)
  | char d k =>
    cases k with
    | active =>
      by_cases hc : d = c
      · subst hc
        rw [if_pos rfl]
        exact env.lookup_assign_self (.active d μ?) global
      · rw [if_neg (by simpa using hc)]
        exact hother (p := .active d) (by simpa using hc)
    | _ =>
      rw [if_neg (by simp)]
      rfl
  | frozenRelax => rfl
  | param i => rfl

/-- A command that was given a meaning has this meaning, and all other tokens have theirs. -/
theorem meaningIn_setMeaning (env : Env Meaning) {t : Token} (ht : t.isCommand = true)
    (hfrozen : t ≠ .frozenRelax) (μ? : Option Meaning) (global : Bool) (u : Token) :
    meaningIn (env.setMeaning t μ? global) u = if u = t then μ? else meaningIn env u := by
  cases t with
  | cs name => exact env.meaningIn_assign_code name μ? global u
  | char c k =>
    cases k with
    | active => exact env.meaningIn_assign_active c μ? global u
    | _ => contradiction
  | frozenRelax => contradiction
  | param i => contradiction

/-- Behind \let, the command has the sense of the token whose meaning it copied. -/
theorem sense_setMeaning_meaningOf (env : Env Meaning) {cs : Token} (hcs : cs.isCommand = true)
    (hfrozen : cs ≠ .frozenRelax) (t : Token) (global : Bool) :
    (env.setMeaning cs (env.meaningOf t) global).sense cs =
      (env.setMeaning cs (env.meaningOf t) global).sense t := by
  unfold sense
  congr 1
  rw [meaningOf_of_isCommand hcs, meaningIn_setMeaning env hcs hfrozen, if_pos rfl]
  cases ht : t.isCommand with
  | true =>
    rw [meaningOf_of_isCommand ht, meaningOf_of_isCommand ht,
      meaningIn_setMeaning env hcs hfrozen]
    -- The token may be the command itself, whose meaning stays as it is.
    by_cases heq : t = cs
    · rw [if_pos heq]
    · rw [if_neg heq]
  | false => rw [meaningOf_of_not_isCommand ht, meaningOf_of_not_isCommand ht]

end Env

namespace Expander

variable {x : Expander} {m m' : Machine}

/-- What is to be defined is a command other than the frozen \relax. -/
theorem isCommand_of_scanDefinedToken {t : Token} (h : x.scanDefinedToken m = .ok t m') :
    t.isCommand = true ∧ t ≠ .frozenRelax := by
  refine iterate_induct (I := fun _ => True) (Q := fun t => t.isCommand = true ∧ t ≠ .frozenRelax)
    (fun _ _ _ _ _ _ => True.intro) (fun _ t m m' _ hstep => ?_) True.intro h
  obtain ⟨t?, m₁, -, hstep⟩ := exists_of_bind_eq_ok hstep
  obtain ⟨u, m₂, -, hstep⟩ := exists_of_bind_eq_ok hstep
  split at hstep
  · injection hstep with hstep
    contradiction
  · split at hstep
    · obtain ⟨-, m₃, -, hstep⟩ := exists_of_bind_eq_ok hstep
      contradiction
    · rename_i hcommand
      injection hstep with hstep
      injection hstep with hstep
      subst hstep
      simpa using hcommand

/-- Copying a meaning always succeeds. -/
theorem bindMeaning_apply (cs t : Token) (global : Bool) (m : Machine) :
    (do bind cs (← tokenMeaning t) global : Eng Unit) m =
      .ok () { m with env := m.env.setMeaning cs (m.env.meaningOf t) global } := by
  rw [bind_of_ok (tokenMeaning_apply t m)]
  rfl

theorem equates_after_let {cs : Token} (hcs : cs.isCommand = true) (hfrozen : cs ≠ .frozenRelax)
    (t : Token) (global : Bool) :
    x.Equates { m with env := m.env.setMeaning cs (m.env.meaningOf t) global } cs t := by
  rw [equates_iff (fun h => absurd hcs (by simp [h]))]
  exact m.env.sense_setMeaning_meaningOf hcs hfrozen t global

/-- \ifx decides an equivalence of tokens.  A command is equivalent to a character if it was
    \let to this character, and to an undefined command if it is undefined, too.  A command
    to which the meaning of a token has been copied is equivalent to this token, and so are
    the two tokens that \let has read. -/
theorem ifx_equivalence_respects_let (x : Expander) (m : Machine) :
    (∀ a b : Token, a.isParam = false → b.isParam = false →
      ∃ r m', x.test .sameMeaning (m.feed [a, b]) = .ok r m') ∧
    Equivalence (fun a b : { t : Token // t.isParam = false } => x.Equates m a b) ∧
    (∀ a c : Token, a.isCommand = true → c.isChar = true → c.isActive = false →
      (x.Equates m a c ↔ meaningIn m.env a = some (.charToken c))) ∧
    (∀ a b : Token, a.isCommand = true → b.isCommand = true → meaningIn m.env a = none →
      (x.Equates m a b ↔ meaningIn m.env b = none)) ∧
    (∀ (cs t : Token) (global : Bool), cs.isCommand = true → cs ≠ .frozenRelax →
      ∃ m', (do bind cs (← tokenMeaning t) global : Eng Unit) m = .ok () m' ∧
        x.Equates m' cs t) ∧
    (∀ (global : Bool) (m' : Machine), x.assignCopy global m = .ok () m' →
      ∃ cs t m₁ m₂, x.scanDefinedToken m = .ok cs m₁ ∧ x.scanLetToken m₁ = .ok t m₂ ∧
        x.Equates m' cs t) := by
  have hiff : ∀ a b : { t : Token // t.isParam = false },
      x.Equates m a b ↔ m.env.sense a = m.env.sense b :=
    fun a b => equates_iff fun _ _ => ⟨a.2, b.2⟩
  -- The equivalence is that of the senses, and each of the other parts says what the sense of a
  -- token is.
  refine ⟨?_, ⟨?_, ?_, ?_⟩, ?_, ?_, ?_, ?_⟩
  · intro a b ha hb
    exact ⟨_, _, test_sameMeaning_feed fun _ _ => ⟨ha, hb⟩⟩
  · intro a
    exact (hiff a a).mpr rfl
  · intro a b hab
    exact (hiff b a).mpr ((hiff a b).mp hab).symm
  · intro a b c hab hbc
    exact (hiff a c).mpr (((hiff a b).mp hab).trans ((hiff b c).mp hbc))
  · -- A character that is not active stands for itself.
    intro a c ha hc hactive
    have hcommand : c.isCommand = false := by
      cases c with
      | char d k => simpa [Token.isCommand, Token.isCs] using hactive
      | _ => contradiction
    rw [equates_iff (fun h => absurd ha (by simp [h])), Env.sense, Env.sense,
      Env.meaningOf_of_isCommand ha, Env.meaningOf_of_not_isCommand hcommand]
    exact Env.map_nameless_eq_charToken
  · intro a b ha hb hundefined
    rw [equates_iff (fun h => absurd ha (by simp [h])), Env.sense, Env.sense,
      Env.meaningOf_of_isCommand ha, Env.meaningOf_of_isCommand hb, hundefined]
    rw [Option.map_none, eq_comm, Option.map_eq_none_iff]
  · intro cs t global hcs hfrozen
    exact ⟨_, bindMeaning_apply cs t global m, equates_after_let hcs hfrozen t global⟩
  · intro global m' h
    obtain ⟨cs, m₁, hdefined, h⟩ := exists_of_bind_eq_ok h
    obtain ⟨t, m₂, hlet, h⟩ := exists_of_bind_eq_ok h
    obtain ⟨hcs, hfrozen⟩ := isCommand_of_scanDefinedToken hdefined
    rw [bindMeaning_apply] at h
    injection h with _ h
    exact ⟨cs, t, m₁, m₂, hdefined, hlet, h ▸ equates_after_let hcs hfrozen t global⟩

/-- An engine in which \a is a macro that calls itself, and nothing else is defined. -/
def selfCalling : Machine where
  env := (Env.initial .plain false).assign
    (.code "a" (some (.defined { name := "a", body := [.cs "a"] }))) false

theorem ifx_equivalence_respects_let_macro :
    Token.isCommand (.cs "b") = true ∧ Token.cs "b" ≠ .frozenRelax ∧
      ∃ m', (do bind (.cs "b") (← tokenMeaning (.cs "a")) false : Eng Unit) selfCalling =
        .ok () m' ∧ (ofDepth 1 1).Equates m' (.cs "b") (.cs "a") := by
  have hcommand : Token.isCommand (.cs "b") = true := rfl
  have hfrozen : Token.cs "b" ≠ .frozenRelax := by simp
  exact ⟨hcommand, hfrozen, (ifx_equivalence_respects_let (ofDepth 1 1) selfCalling).2.2.2.2.1
    (.cs "b") (.cs "a") false hcommand hfrozen⟩

end Expander

/-! ## The characters that tokens stand for -/

/-- The character token that a token stands for: itself, or the one to which it was \let. -/
def Env.character? (env : Env Meaning) (t : Token) : Option Token :=
  if t.isCommand then
    match meaningIn env t with
    | some (.charToken c) => some c
    | _ => none
  else if t.isChar then some t else none

/-- The code by which \if compares a token that stands for the given character, or for
    none. -/
def Token.comparedCode (c? : Option Token) : CharCode :=
  (c?.map Token.code).getD 256

/-- The category by which \ifcat compares a token that stands for the given character, or
    for none. -/
def Token.comparedCat (c? : Option Token) : Catcode :=
  (c?.map Token.cat).getD (.unassigned 16)

/-- Two tokens, of which at most one stands for a character, are compared as equal: neither
    of them does, or the one that does cannot be told from no character. -/
def Token.Mistaken (isSubstitute : Token → Prop) (a? b? : Option Token) : Prop :=
  (a? = none ∧ b? = none) ∨
    ∃ c, isSubstitute c ∧ ((a? = some c ∧ b? = none) ∨ (a? = none ∧ b? = some c))

namespace Token

variable {a? b? : Option Token}

theorem comparedCode_eq_iff : comparedCode a? = comparedCode b? ↔
    (∃ c ∈ a?, ∃ d ∈ b?, c.code = d.code) ∨ Mistaken (·.code = 256) a? b? := by
  cases a? <;> cases b? <;> simp [comparedCode, Mistaken, eq_comm]

theorem comparedCat_eq_iff : comparedCat a? = comparedCat b? ↔
    (∃ c ∈ a?, ∃ d ∈ b?, c.cat = d.cat) ∨ Mistaken (·.cat = .unassigned 16) a? b? := by
  cases a? <;> cases b? <;> simp [comparedCat, Mistaken, eq_comm]

/-- If characters have one of the sixteen categories, none is mistaken for no character. -/
theorem mistaken_cat_iff (ha : ∀ c ∈ a?, c.cat.isValid = true)
    (hb : ∀ c ∈ b?, c.cat.isValid = true) :
    Mistaken (·.cat = .unassigned 16) a? b? ↔ a? = none ∧ b? = none := by
  have hne : ∀ c : Token, c.cat.isValid = true → c.cat ≠ .unassigned 16 := by
    rintro c hvalid hcat
    rw [hcat] at hvalid
    contradiction
  constructor
  · rintro (hnone | ⟨c, hcat, ⟨rfl, -⟩ | ⟨-, rfl⟩⟩)
    · exact hnone
    · exact absurd hcat (hne c (ha c rfl))
    · exact absurd hcat (hne c (hb c rfl))
  · exact Or.inl

end Token

namespace Expander

variable {x : Expander} {m m₁ m₂ : Machine} {a b : Token}

/-- A token that is not marked is compared as the character that it stands for. -/
theorem charCat_apply (t : Token) (m : Machine) (hm : m.frozen = false) :
    charCat t m =
      .ok (Token.comparedCode (m.env.character? t), Token.comparedCat (m.env.character? t)) m := by
  unfold charCat Env.character?
  rw [bind_of_ok (isFrozen_apply m), hm]
  cases ht : t.isCommand with
  | true =>
    have hchar : (t.isChar && !t.isActive) = false := by
      cases t with
      | char c k => cases k <;> first | rfl | contradiction
      | _ => rfl
    simp only [Bool.not_false, Bool.and_true, if_true, hchar]
    rw [bind_of_ok (meaning?_apply t m)]
    cases meaningIn m.env t with
    | none => rfl
    | some μ => cases μ <;> rfl
  | false =>
    simp only [Bool.not_false, Bool.and_true]
    cases t with
    | char c k => cases k <;> first | rfl | contradiction
    | param i => rfl
    | _ => contradiction

/-- Both tests read two tokens, which are not marked here, and compare what they found. -/
theorem compare_apply {β : Type} (ha : x.next? m = .ok (some a) m₁)
    (hb : x.next? m₁ = .ok (some b) m₂) (hma : m₁.frozen = false) (hmb : m₂.frozen = false)
    (answer : CharCode × Catcode → CharCode × Catcode → β) :
    (do
      let f ← charCat (← expect (← x.next?) .runawayConditional [])
      let g ← charCat (← expect (← x.next?) .runawayConditional [])
      return answer f g : Eng β) m =
      .ok (answer
        (Token.comparedCode (m₁.env.character? a), Token.comparedCat (m₁.env.character? a))
        (Token.comparedCode (m₂.env.character? b), Token.comparedCat (m₂.env.character? b)))
        m₂ := by
  rw [bind_of_ok ha, bind_of_ok (expect_some ..), bind_of_ok (charCat_apply a m₁ hma),
    bind_of_ok hb, bind_of_ok (expect_some ..), bind_of_ok (charCat_apply b m₂ hmb)]
  rfl

/-- Two tokens that are not marked, and the characters that they stand for.  \if is true if
    both stand for characters of one code, if neither stands for a character, or if one
    stands for U+0100 and the other for no character; \ifcat is true if both stand for
    characters of one category, or if neither stands for a character, as long as characters
    have one of the sixteen categories. -/
theorem if_and_ifcat_compare (ha : x.next? m = .ok (some a) m₁)
    (hb : x.next? m₁ = .ok (some b) m₂) (hma : m₁.frozen = false) (hmb : m₂.frozen = false) :
    let a? := m₁.env.character? a
    let b? := m₂.env.character? b
    ∃ sameCode sameCat, x.test .sameChar m = .ok sameCode m₂ ∧
      x.test .sameCategory m = .ok sameCat m₂ ∧
      (sameCode = true ↔ (∃ c ∈ a?, ∃ d ∈ b?, c.code = d.code) ∨ (a? = none ∧ b? = none) ∨
        ∃ c, c.code = 256 ∧ ((a? = some c ∧ b? = none) ∨ (a? = none ∧ b? = some c))) ∧
      (sameCat = true ↔ (∃ c ∈ a?, ∃ d ∈ b?, c.cat = d.cat) ∨ (a? = none ∧ b? = none) ∨
        ∃ c, c.cat = .unassigned 16 ∧
          ((a? = some c ∧ b? = none) ∨ (a? = none ∧ b? = some c))) ∧
      ((∀ c ∈ a?, c.cat.isValid = true) → (∀ d ∈ b?, d.cat.isValid = true) →
        (sameCat = true ↔ (∃ c ∈ a?, ∃ d ∈ b?, c.cat = d.cat) ∨ (a? = none ∧ b? = none))) := by
  intro a? b?
  refine ⟨Token.comparedCode a? == Token.comparedCode b?,
    Token.comparedCat a? == Token.comparedCat b?,
    compare_apply ha hb hma hmb (fun f g => f.1 == g.1),
    compare_apply ha hb hma hmb (fun f g => f.2 == g.2), ?_, ?_, ?_⟩
  · rw [beq_iff_eq, Token.comparedCode_eq_iff]
    rfl
  · rw [beq_iff_eq, Token.comparedCat_eq_iff]
    rfl
  · intro hvalid hvalid'
    rw [beq_iff_eq, Token.comparedCat_eq_iff, Token.mistaken_cat_iff hvalid hvalid']

/-- An engine in which nothing is defined, with some tokens as its input. -/
def undefinedBefore (ts : TokenList) : Machine :=
  Machine.feed { env := Env.initial .plain false } ts

/-- Of these tokens, the control sequence cannot be expanded as it is undefined. -/
theorem next?_undefinedBefore (t : Token) (ts : TokenList)
    (ht : Unexpandable (Env.initial .plain false) t) :
    (ofDepth 1 1).next? (undefinedBefore (t :: ts)) = .ok (some t) (undefinedBefore ts) :=
  (ofDepth 1 1).next?_feed_cons (by decide) { env := Env.initial .plain false } t ts rfl ht

theorem meaningIn_undefined (name : String) :
    meaningIn (Env.initial .plain false) (.cs name) = none :=
  Std.TreeMap.getElem?_emptyc

theorem character?_undefined (name : String) :
    (Env.initial .plain false).character? (.cs name) = none := by
  rw [Env.character?, meaningIn_undefined]
  rfl

theorem unexpandable_undefined (name : String) :
    Unexpandable (Env.initial .plain false) (.cs name) := by
  intro _ μ hμ
  rw [meaningIn_undefined] at hμ
  contradiction

theorem if_and_ifcat_compare_letter :
    (ofDepth 1 1).next? (undefinedBefore [.cs "a", .letter 65]) =
        .ok (some (.cs "a")) (undefinedBefore [.letter 65]) ∧
      (ofDepth 1 1).next? (undefinedBefore [.letter 65]) =
        .ok (some (.letter 65)) (undefinedBefore []) ∧
      (undefinedBefore [.letter 65]).frozen = false ∧ (undefinedBefore []).frozen = false ∧
      (ofDepth 1 1).test .sameChar (undefinedBefore [.cs "a", .letter 65]) =
        .ok false (undefinedBefore []) := by
  have ha := next?_undefinedBefore (.cs "a") [.letter 65] (unexpandable_undefined "a")
  have hb := next?_undefinedBefore (.letter 65) [] (unexpandable_of_not_isCommand _ rfl)
  obtain ⟨sameCode, sameCat, hcode, -, hiff, -, -⟩ := if_and_ifcat_compare ha hb rfl rfl
  have hnone : (undefinedBefore [.letter 65]).env.character? (.cs "a") = none :=
    character?_undefined "a"
  have hfalse : sameCode = false := by
    rw [← Bool.not_eq_true, hiff, hnone]
    simp [Env.character?, Token.letter, Token.isCommand, Token.isCs, Token.isActive, Token.isChar,
      Token.code]
  exact ⟨ha, hb, rfl, rfl, hfalse ▸ hcode⟩

/-- An undefined control sequence stands for no character, but \if takes it for U+0100. -/
theorem if_takes_undefined_for_character :
    (ofDepth 1 1).next? (undefinedBefore [.cs "a", .other 256]) =
        .ok (some (.cs "a")) (undefinedBefore [.other 256]) ∧
      (ofDepth 1 1).next? (undefinedBefore [.other 256]) =
        .ok (some (.other 256)) (undefinedBefore []) ∧
      (undefinedBefore [.other 256]).env.character? (.cs "a") = none ∧
      (undefinedBefore []).env.character? (.other 256) = some (.other 256) ∧
      (ofDepth 1 1).test .sameChar (undefinedBefore [.cs "a", .other 256]) =
        .ok true (undefinedBefore []) := by
  have ha := next?_undefinedBefore (.cs "a") [.other 256] (unexpandable_undefined "a")
  have hb := next?_undefinedBefore (.other 256) [] (unexpandable_of_not_isCommand _ rfl)
  have hnone : (undefinedBefore [.other 256]).env.character? (.cs "a") = none :=
    character?_undefined "a"
  have hcompare := compare_apply ha hb rfl rfl (fun f g => f.1 == g.1)
  rw [hnone] at hcompare
  exact ⟨ha, hb, hnone, rfl, hcompare⟩

end Expander
end TexEngine
