/-
  TexEngine.Proofs.Engine.DefinitionRoundTrip

  Definitions as they are written.  A parameter is written as a parameter character and
  its number, a parameter character of the body is written twice, and a brace at the end
  of the pattern stands behind a parameter character, where it opens the body.  Reading a
  definition that is written in this way gives back the macro and leaves what follows.

  Each of the two loops of the reader is followed along its part of the text: behind the
  text of some tokens, it has seen these tokens.
-/
import TexEngine.Proofs.Engine.MacroShape

namespace TexEngine

open Eng

/-! ## Written definitions -/

namespace Token

/-- How a token of a macro is written, with the given parameter character in front of
    numbers. -/
def written (hash : CharCode) : Token → TokenList
  | .param k => [.char hash .parameter, .other (48 + k)]
  | .char c .parameter => [.char c .parameter, .char c .parameter]
  | t => [t]

theorem written_of_ordinary (hash : CharCode) {t : Token} (hparam : t.isParam = false)
    (hparameter : t.hasCat .parameter = false) : t.written hash = [t] := by
  cases t with
  | param k => contradiction
  | char c k =>
    cases k with
    | parameter => contradiction
    | _ => rfl
  | _ => rfl

end Token

/-- How a part of a macro is written. -/
def TokenList.written (hash : CharCode) (ts : TokenList) : TokenList :=
  ts.flatMap (Token.written hash)

namespace TokenList

theorem written_cons (hash : CharCode) (t : Token) (ts : TokenList) :
    TokenList.written hash (t :: ts) = t.written hash ++ TokenList.written hash ts := rfl

end TokenList

namespace MacroDef

/-- How a pattern is written, with the brace that opens the body behind it.  A brace at the
    end of the pattern is this brace, and stands behind a parameter character. -/
def writtenPattern (hash left : CharCode) (p : TokenList) : TokenList :=
  match finalBrace? p with
  | none => TokenList.written hash p ++ [.char left .beginGroup]
  | some b => TokenList.written hash p.dropLast ++ [.char hash .parameter, b]

/-- The body without the brace that ends the pattern. -/
def inner (d : MacroDef) : TokenList :=
  match finalBrace? d.pattern with
  | none => d.body
  | some _ => d.body.dropLast

/-- How a macro is written behind the name that is defined. -/
def written (hash left right : CharCode) (d : MacroDef) : TokenList :=
  writtenPattern hash left d.pattern ++
    (TokenList.written hash d.inner ++ [.char right .endGroup])

/-- A pattern ends with a brace or has none. -/
theorem IsPattern.cases {p : TokenList} (h : IsPattern p) :
    (finalBrace? p = none ∧ ∀ t ∈ p, t.hasCat .beginGroup = false) ∨
      ∃ init b, p = init ++ [b] ∧ finalBrace? p = some b ∧ b.hasCat .beginGroup = true ∧
        ∀ t ∈ init, t.hasCat .beginGroup = false := by
  rcases List.eq_nil_or_concat p with rfl | ⟨init, b, rfl⟩
  · exact .inl ⟨rfl, fun t ht => absurd ht List.not_mem_nil⟩
  · rw [List.concat_eq_append] at h ⊢
    have hinit : ∀ t ∈ init, t.hasCat .beginGroup = false := h.braces.not_open
    cases hb : b.hasCat .beginGroup with
    | true => exact .inr ⟨init, b, rfl, finalBrace?_append_brace init hb, hb, hinit⟩
    | false =>
      refine .inl ⟨?_, ?_⟩
      · rw [finalBrace?, List.getLast?_concat, Option.filter_some, hb]
        rfl
      · intro t ht
        rcases List.mem_append.mp ht with ht | ht
        · exact hinit t ht
        · rw [List.mem_singleton.mp ht]
          exact hb

/-- The body of a well-formed macro is balanced up to the brace that ends the pattern. -/
theorem WellFormed.inner_balanced {d : MacroDef} (h : d.WellFormed) :
    Balanced d.inner ∧ d.body = d.inner ++ (finalBrace? d.pattern).toList := by
  obtain ⟨ts, hts, hbody⟩ := h.body
  have hinner : d.inner = ts := by
    unfold inner
    cases hfinal : finalBrace? d.pattern with
    | none =>
      rw [hbody, hfinal]
      exact List.append_nil ts
    | some b =>
      rw [hbody, hfinal]
      exact List.dropLast_concat
  rw [hinner]
  exact ⟨hts, hbody⟩

end MacroDef

namespace Expander

/-! ## Parameter texts -/

section ParameterTexts

variable {p : ParameterText} {m : Machine} {ts : TokenList} {t : Token}

/-- Behind a parameter character, the next token decides. -/
theorem parameterStep_hash (p : ParameterText) (m : Machine) (ts : TokenList) (hash : CharCode)
    (next : Token) :
    parameterStep p (m.feed (.char hash .parameter :: next :: ts)) =
      (if next.hasCat .beginGroup then
        return .done { p with pattern := (next :: p.pattern).reverse, brace := some next }
      else if !next.isChar || next.code ≠ 49 + p.params || p.params ≥ 9 then
        failAt .parameterNumber next []
      else
        return .again
          { p with pattern := .param (p.params + 1) :: p.pattern, params := p.params + 1 } :
        Eng (Step ParameterText ParameterText))
        ((m.passAll [.char hash .parameter, next]).feed ts) := by
  have hopen : (Token.char hash .parameter).hasCat .beginGroup = false := rfl
  have hclose : (Token.char hash .parameter).hasCat .endGroup = false := rfl
  have hparameter : (Token.char hash .parameter).hasCat .parameter = true := rfl
  unfold parameterStep
  rw [bind_of_ok (token?_feed m _ _), bind_of_ok (expect_some ..), hopen, hclose, hparameter]
  simp only [Bool.false_eq_true, if_false, if_true]
  rw [bind_of_ok (token?_feed _ next ts), bind_of_ok (expect_some ..)]
  rfl

/-- The parameter with the next number is read. -/
theorem parameterStep_param (p : ParameterText) (m : Machine) (ts : TokenList) (hash : CharCode)
    (hp : p.params < 9) :
    parameterStep p (m.feed ((Token.param (p.params + 1)).written hash ++ ts)) =
      .ok (.again { p with pattern := .param (p.params + 1) :: p.pattern, params := p.params + 1 })
        ((m.passAll ((Token.param (p.params + 1)).written hash)).feed ts) := by
  have hnumber : (48 + ((p.params + 1 : Nat) : Int)) = 49 + (p.params : Int) := by omega
  have hopen : (Token.other (49 + (p.params : Int))).hasCat .beginGroup = false := rfl
  have hnext : (!(Token.other (49 + (p.params : Int))).isChar ||
      (Token.other (49 + (p.params : Int))).code ≠ 49 + p.params || p.params ≥ 9) = false := by
    simp [Token.other, Token.isChar, Token.code, hp]
  show parameterStep p (m.feed (.char hash .parameter ::
    .other (48 + ((p.params + 1 : Nat) : Int)) :: ts)) = .ok _ ((m.passAll [.char hash .parameter,
      .other (48 + ((p.params + 1 : Nat) : Int))]).feed ts)
  rw [hnumber, parameterStep_hash, hopen, hnext]
  rfl

/-- A token that is neither a brace nor a parameter character is read. -/
theorem parameterStep_token (p : ParameterText) (m : Machine) (ts : TokenList) {t : Token}
    (hopen : t.hasCat .beginGroup = false) (hclose : t.hasCat .endGroup = false)
    (hparameter : t.hasCat .parameter = false) :
    parameterStep p (m.feed (t :: ts)) =
      .ok (.again { p with pattern := t :: p.pattern }) ((m.pass t).feed ts) := by
  unfold parameterStep
  rw [bind_of_ok (token?_feed m t ts), bind_of_ok (expect_some ..), hopen, hclose, hparameter]
  rfl

/-- An opening brace ends the text. -/
theorem parameterStep_brace (p : ParameterText) (m : Machine) (ts : TokenList) (left : CharCode) :
    parameterStep p (m.feed (.char left .beginGroup :: ts)) =
      .ok (.done { p with pattern := p.pattern.reverse })
        ((m.pass (.char left .beginGroup)).feed ts) := by
  unfold parameterStep
  rw [bind_of_ok (token?_feed m _ ts), bind_of_ok (expect_some ..)]
  rfl

/-- An opening brace behind a parameter character ends the text and belongs to it. -/
theorem parameterStep_finalBrace (p : ParameterText) (m : Machine) (ts : TokenList)
    (hash : CharCode) {b : Token} (hb : b.hasCat .beginGroup = true) :
    parameterStep p (m.feed (.char hash .parameter :: b :: ts)) =
      .ok (.done { p with pattern := (b :: p.pattern).reverse, brace := some b })
        ((m.passAll [.char hash .parameter, b]).feed ts) := by
  rw [parameterStep_hash, if_pos hb]
  rfl

/-- The loop along the text of some tokens: the parameters among them have the numbers
    behind those that have been read. -/
theorem iterate_parameterStep_written (hash : CharCode) (ps : TokenList) (p : ParameterText)
    (hnumbered : ps.filter (·.isParam) =
      (List.range' (p.params + 1) (MacroDef.params ps)).map Token.param)
    (hle : p.params + MacroDef.params ps ≤ 9)
    (hordinary : ∀ t ∈ ps, t.hasCat .beginGroup = false ∧ t.hasCat .endGroup = false ∧
      t.hasCat .parameter = false) (n : Nat) (m : Machine) (ts : TokenList) :
    iterate parameterStep (n + ps.length) p (m.feed (TokenList.written hash ps ++ ts)) =
      iterate parameterStep n
        { p with pattern := ps.reverse ++ p.pattern, params := p.params + MacroDef.params ps }
        ((m.passAll (TokenList.written hash ps)).feed ts) := by
  -- By induction on the pattern: a parameter takes two tokens of the text but one round, and its
  -- number is the next one because the pattern is numbered.
  induction ps generalizing p m with
  | nil => rfl
  | cons t ps ih =>
    rw [List.forall_mem_cons] at hordinary
    obtain ⟨⟨hopen, hclose, hparameter⟩, hordinary⟩ := hordinary
    rw [TokenList.written_cons, List.append_assoc, Machine.passAll_append, List.length_cons,
      ← Nat.add_assoc]
    cases ht : t.isParam with
    | true =>
      obtain ⟨j, rfl⟩ : ∃ j, t = .param j := by
        cases t <;> simp_all [Token.isParam]
      have hparams : MacroDef.params (.param j :: ps) = MacroDef.params ps + 1 :=
        List.countP_cons_of_pos rfl
      rw [hparams, List.filter_cons_of_pos rfl, List.range'_succ, List.map_cons,
        List.cons.injEq] at hnumbered
      obtain ⟨hj, hnumbered⟩ := hnumbered
      obtain rfl : j = p.params + 1 := Token.param.inj hj
      rw [hparams] at hle ⊢
      have hle' : p.params + 1 + MacroDef.params ps ≤ 9 := by omega
      rw [iterate_of_again (parameterStep_param p m _ hash (by omega))]
      refine (ih { p with pattern := .param (p.params + 1) :: p.pattern, params := p.params + 1 }
        hnumbered hle' hordinary _).trans ?_
      simp [Nat.add_assoc, Nat.add_comm 1]
    | false =>
      have hparams := MacroDef.params_cons_of_not_isParam ht ps
      rw [hparams, List.filter_cons_of_neg (by simp [ht])] at hnumbered
      rw [hparams] at hle ⊢
      rw [Token.written_of_ordinary hash ht hparameter, List.singleton_append,
        iterate_of_again (parameterStep_token p m _ hopen hclose hparameter)]
      refine (ih { p with pattern := t :: p.pattern } hnumbered hle hordinary _).trans ?_
      simp

/-- The parameter text of a written pattern is the pattern. -/
theorem scanParameterText_written (x : Expander) {pattern : TokenList}
    (h : MacroDef.IsPattern pattern) (hparameter : ∀ t ∈ pattern, t.hasCat .parameter = false)
    (hfuel : pattern.length < x.fuel) (hash left : CharCode) (m : Machine) (ts : TokenList) :
    x.scanParameterText (m.feed (MacroDef.writtenPattern hash left pattern ++ ts)) =
      .ok { pattern, params := MacroDef.params pattern, brace := MacroDef.finalBrace? pattern }
        ((m.passAll (MacroDef.writtenPattern hash left pattern)).feed ts) := by
  rw [scanParameterText_eq_iterate]
  rcases h.cases with ⟨hfinal, hopen⟩ | ⟨init, b, rfl, hfinal, hb, hopen⟩
  -- Without a brace at its end, the pattern is ended by the opening brace of the body.
  · have hordinary : ∀ t ∈ pattern, t.hasCat .beginGroup = false ∧
        t.hasCat .endGroup = false ∧ t.hasCat .parameter = false :=
      fun t ht => ⟨hopen t ht, h.braces.no_close t ht, hparameter t ht⟩
    obtain ⟨n, hn⟩ : ∃ n, x.fuel = n + 1 + pattern.length := ⟨x.fuel - 1 - pattern.length, by omega⟩
    have hloop := iterate_parameterStep_written hash pattern {} h.numbered
      ((Nat.zero_add _).trans_le h.params_le) hordinary (n + 1) m (.char left .beginGroup :: ts)
    rw [MacroDef.writtenPattern, hfinal]
    dsimp only
    rw [List.append_assoc, hn, List.singleton_append, hloop,
      iterate_of_done (parameterStep_brace ..), Machine.passAll_append]
    simp
  · -- The brace is no parameter, and the rest of the pattern is read as in the other case.
    have hbparam : b.isParam = false := by
      cases b <;> simp_all [Token.hasCat, Token.isParam]
    have hparams : MacroDef.params (init ++ [b]) = MacroDef.params init := by
      rw [MacroDef.params, List.countP_append, List.countP_singleton, hbparam]
      rfl
    have hfilter : (init ++ [b]).filter (·.isParam) = init.filter (·.isParam) := by
      rw [List.filter_append, List.filter_singleton, hbparam]
      exact List.append_nil _
    have hordinary : ∀ t ∈ init, t.hasCat .beginGroup = false ∧
        t.hasCat .endGroup = false ∧ t.hasCat .parameter = false := by
      intro t ht
      have hmem : t ∈ init ++ [b] := List.mem_append_left [b] ht
      exact ⟨hopen t ht, h.braces.no_close t hmem, hparameter t hmem⟩
    have hnumbered := h.numbered
    have hle := h.params_le
    rw [hparams] at hle hnumbered
    rw [hfilter] at hnumbered
    rw [List.length_append, List.length_singleton] at hfuel
    obtain ⟨n, hn⟩ : ∃ n, x.fuel = n + 1 + init.length := ⟨x.fuel - 1 - init.length, by omega⟩
    have hloop := iterate_parameterStep_written hash init {} hnumbered
      ((Nat.zero_add _).trans_le hle) hordinary (n + 1) m (.char hash .parameter :: b :: ts)
    rw [MacroDef.writtenPattern, hfinal]
    dsimp only
    rw [List.dropLast_concat, List.append_assoc, hn, List.cons_append, List.singleton_append, hloop,
      iterate_of_done (parameterStep_finalBrace _ _ _ _ hb), Machine.passAll_append, hparams]
    simp

end ParameterTexts

/-! ## Bodies -/

section Bodies

/-- One round of `scanBody` without expansion. -/
def bodyStep (params : Nat) (s : Nat × TokenList) : Eng (Step (Nat × TokenList) TokenList) := do
  let t ← expect (← token?) .unterminatedGroup []
  if t.hasCat .parameter then return .again (s.1, (← scanParameter params) :: s.2)
  else
    match braceDepth? s.1 t with
    | none => return .done s.2.reverse
    | some depth => return .again (depth, t :: s.2)

theorem scanBody_eq_iterate (x : Expander) (params : Nat) :
    x.scanBody params false = iterate (bodyStep params) x.fuel (0, []) := by
  unfold scanBody
  congr 1

variable {params depth depth' : Nat}

/-- The number of a parameter is read behind a parameter character. -/
theorem scanParameter_number (m : Machine) (ts : TokenList) {k : Nat} (hk : 1 ≤ k)
    (hle : k ≤ params) (hparams : params ≤ 9) :
    scanParameter params (m.feed (.other (48 + k) :: ts)) =
      .ok (.param k) ((m.pass (.other (48 + k))).feed ts) := by
  have hparameter : (Token.other (48 + (k : Int))).hasCat .parameter = false := rfl
  have hdigit : (!(Token.other (48 + (k : Int))).isChar ||
      (Token.other (48 + (k : Int))).code < 49 || (Token.other (48 + (k : Int))).code > 57) =
        false := by
    have hlow : ¬ 48 + (k : Int) < 49 := by omega
    have hhigh : ¬ 48 + (k : Int) > 57 := by omega
    simp [Token.other, Token.isChar, Token.code, hlow, hhigh]
  have hnumber : ((Token.other (48 + (k : Int))).code - 48).toNat = k := by
    show (48 + (k : Int) - 48).toNat = k
    omega
  unfold scanParameter
  rw [bind_of_ok (token?_feed m _ ts), bind_of_ok (expect_some ..), hparameter, hdigit]
  simp only [Bool.false_eq_true, if_false, hnumber]
  rw [if_neg (by omega)]
  rfl

/-- A second parameter character is read behind the first one. -/
theorem scanParameter_parameter (m : Machine) (ts : TokenList) (c : CharCode) :
    scanParameter params (m.feed (.char c .parameter :: ts)) =
      .ok (.char c .parameter) ((m.pass (.char c .parameter)).feed ts) := by
  unfold scanParameter
  rw [bind_of_ok (token?_feed m _ ts), bind_of_ok (expect_some ..)]
  rfl

/-- What is read behind a parameter character belongs to the body. -/
theorem bodyStep_hash (m : Machine) (ts seen : TokenList) (hash : CharCode) {t : Token}
    {m' : Machine}
    (h : scanParameter params ((m.pass (.char hash .parameter)).feed ts) = .ok t m') :
    bodyStep params (depth, seen) (m.feed (.char hash .parameter :: ts)) =
      .ok (.again (depth, t :: seen)) m' := by
  have hparameter : (Token.char hash .parameter).hasCat .parameter = true := rfl
  unfold bodyStep
  rw [bind_of_ok (token?_feed m _ ts), bind_of_ok (expect_some ..), hparameter]
  simp only [if_true]
  rw [bind_of_ok h]
  rfl

/-- Any other token belongs to the body as long as it does not end it. -/
theorem bodyStep_token (m : Machine) (ts seen : TokenList) {t : Token}
    (hparameter : t.hasCat .parameter = false) (hdepth : braceDepth? depth t = some depth') :
    bodyStep params (depth, seen) (m.feed (t :: ts)) =
      .ok (.again (depth', t :: seen)) ((m.pass t).feed ts) := by
  unfold bodyStep
  rw [bind_of_ok (token?_feed m t ts), bind_of_ok (expect_some ..), hparameter]
  simp only [Bool.false_eq_true, if_false, hdepth]
  rfl

/-- The closing brace ends the body. -/
theorem bodyStep_close (m : Machine) (ts seen : TokenList) (right : CharCode) :
    bodyStep params (0, seen) (m.feed (.char right .endGroup :: ts)) =
      .ok (.done seen.reverse) ((m.pass (.char right .endGroup)).feed ts) := by
  unfold bodyStep
  rw [bind_of_ok (token?_feed m _ ts), bind_of_ok (expect_some ..)]
  rfl

/-- A token of a body is read from its text. -/
theorem bodyStep_written (m : Machine) (ts seen : TokenList) (hash : CharCode) {t : Token}
    (ht : ∀ k, t = .param k → 1 ≤ k ∧ k ≤ params) (hparams : params ≤ 9)
    (hdepth : braceDepth? depth t = some depth') :
    bodyStep params (depth, seen) (m.feed (t.written hash ++ ts)) =
      .ok (.again (depth', t :: seen)) ((m.passAll (t.written hash)).feed ts) := by
  cases hparam : t.isParam with
  | true =>
    obtain ⟨k, rfl⟩ : ∃ k, t = .param k := by
      cases t <;> simp_all [Token.isParam]
    obtain ⟨hk, hle⟩ := ht k rfl
    obtain rfl : depth = depth' := Option.some.inj hdepth
    exact bodyStep_hash m _ seen hash (scanParameter_number _ ts hk hle hparams)
  | false =>
    cases hparameter : t.hasCat .parameter with
    | true =>
      obtain ⟨c, rfl⟩ := hasCat_iff.mp hparameter
      obtain rfl : depth = depth' := Option.some.inj hdepth
      exact bodyStep_hash m _ seen c (scanParameter_parameter _ ts c)
    | false =>
      rw [Token.written_of_ordinary hash hparam hparameter]
      exact bodyStep_token m ts seen hparameter hdepth

/-- The loop along the text of some tokens. -/
theorem iterate_bodyStep_written (hash : CharCode) (body : TokenList)
    (hbody : ∀ k, .param k ∈ body → 1 ≤ k ∧ k ≤ params) (hparams : params ≤ 9)
    (hdepth : braceDepthAfter? depth body = some depth') (seen : TokenList) (n : Nat)
    (m : Machine) (ts : TokenList) :
    iterate (bodyStep params) (n + body.length) (depth, seen)
        (m.feed (TokenList.written hash body ++ ts)) =
      iterate (bodyStep params) n (depth', body.reverse ++ seen)
        ((m.passAll (TokenList.written hash body)).feed ts) := by
  induction body generalizing depth seen m with
  | nil =>
    obtain rfl : depth = depth' := Option.some.inj hdepth
    rfl
  | cons t body ih =>
    have ht : ∀ k, t = .param k → 1 ≤ k ∧ k ≤ params :=
      fun k hk => hbody k (hk ▸ List.mem_cons_self)
    have hbody' : ∀ k, .param k ∈ body → 1 ≤ k ∧ k ≤ params :=
      fun k hk => hbody k (List.mem_cons_of_mem t hk)
    rw [braceDepthAfter?_cons, Option.bind_eq_some_iff] at hdepth
    obtain ⟨middle, hmiddle, hrest⟩ := hdepth
    rw [TokenList.written_cons, List.append_assoc, Machine.passAll_append, List.length_cons,
      ← Nat.add_assoc, iterate_of_again (bodyStep_written m _ seen hash ht hparams hmiddle),
      ih hbody' hrest]
    simp

/-- The body that is read from the text of a body is this body. -/
theorem scanBody_written (x : Expander) {body : TokenList}
    (hbody : ∀ k, .param k ∈ body → 1 ≤ k ∧ k ≤ params) (hparams : params ≤ 9)
    (hbalanced : Balanced body) (hfuel : body.length < x.fuel)
    (hash right : CharCode) (m : Machine) (ts : TokenList) :
    x.scanBody params false
        (m.feed (TokenList.written hash body ++ .char right .endGroup :: ts)) =
      .ok body ((m.passAll (TokenList.written hash body ++ [.char right .endGroup])).feed ts) := by
  obtain ⟨n, hn⟩ : ∃ n, x.fuel = n + 1 + body.length := ⟨x.fuel - 1 - body.length, by omega⟩
  rw [scanBody_eq_iterate, hn, iterate_bodyStep_written hash body hbody hparams
    (hbalanced.braceDepthAfter? 0), iterate_of_done (bodyStep_close ..)]
  simp

end Bodies

/-! ## Definitions -/

/-- Reading a definition undoes writing it: from the text of a well-formed macro whose
    pattern has no parameter characters, the macro is read, and what follows the text is
    left. -/
theorem scanDefinition_written (x : Expander) (name : String) (d : MacroDef) (hd : d.WellFormed)
    (hpattern : ∀ t ∈ d.pattern, t.hasCat .parameter = false)
    (hfuel : d.pattern.length < x.fuel ∧ d.body.length < x.fuel) (hash left right : CharCode)
    (m : Machine) (R : TokenList) :
    ∃ m' : Machine, m'.ready = m.ready ∧
      x.scanDefinition name false (m.feed (d.written hash left right ++ R)) =
        .ok { name, pattern := d.pattern, body := d.body } (m'.feed R) := by
  obtain ⟨hbalanced, hbody⟩ := hd.inner_balanced
  have hinner : ∀ k, .param k ∈ d.inner → 1 ≤ k ∧ k ≤ MacroDef.params d.pattern := by
    intro k hk
    apply hd.indices
    rw [hbody]
    exact List.mem_append_left _ hk
  have hlength : d.inner.length < x.fuel := by
    have hle := congrArg List.length hbody
    rw [List.length_append] at hle
    omega
  have htext := scanParameterText_written x hd.pattern hpattern hfuel.1 hash left m
    (TokenList.written hash d.inner ++ .char right .endGroup :: R)
  have hscan := scanBody_written x hinner hd.pattern.params_le hbalanced hlength hash right
    (m.passAll (MacroDef.writtenPattern hash left d.pattern)) R
  refine ⟨m.passAll (d.written hash left right), m.ready_passAll _, ?_⟩
  rw [MacroDef.written, List.append_assoc, List.append_assoc, List.singleton_append,
    Machine.passAll_append]
  unfold scanDefinition
  rw [bind_of_ok htext, bind_of_ok hscan, hbody]
  rfl

/-- The macro that is written #1,#2#{#2{###1}}, with a parameter character in front of a
    reference in a group. -/
def groupingMacro : MacroDef :=
  { name := "grouping", pattern := [.param 1, .other 44, .param 2, .char 123 .beginGroup],
    body := [.param 2, .char 123 .beginGroup, .char 35 .parameter, .param 1,
      .char 125 .endGroup, .char 123 .beginGroup] }

theorem groupingMacro_wellFormed : groupingMacro.WellFormed where
  pattern :=
    { numbered := by decide
      params_le := by decide
      braces := patternBraces_append_brace (p := [.param 1, .other 44, .param 2])
        (by decide) rfl }
  indices := by
    intro k hk
    simp only [groupingMacro, List.mem_cons, Token.param.injEq, reduceCtorEq, List.not_mem_nil,
      false_or, or_false] at hk
    rcases hk with rfl | rfl <;> decide
  body := ⟨[.param 2, .char 123 .beginGroup, .char 35 .parameter, .param 1, .char 125 .endGroup],
    .token rfl rfl (.group 123 125 (.token rfl rfl (.token rfl rfl .nil)) .nil), rfl⟩

theorem scanDefinition_written_grouping :
    groupingMacro.written 35 123 125 =
      [.char 35 .parameter, .other 49, .other 44, .char 35 .parameter, .other 50,
        .char 35 .parameter, .char 123 .beginGroup, .char 35 .parameter, .other 50,
        .char 123 .beginGroup, .char 35 .parameter, .char 35 .parameter, .char 35 .parameter,
        .other 49, .char 125 .endGroup, .char 125 .endGroup] ∧
    ∃ m' : Machine, m'.ready = Machine.ready { env := {} } ∧
      scanDefinition ⟨20, fun _ _ => pure ()⟩ "grouping" false
          (Machine.feed { env := {} } (groupingMacro.written 35 123 125 ++ [.letter 122])) =
        .ok groupingMacro (m'.feed [.letter 122]) :=
  ⟨by decide, scanDefinition_written ⟨20, fun _ _ => pure ()⟩ "grouping" groupingMacro
    groupingMacro_wellFormed (by decide) (by decide) 35 123 125 { env := {} } [.letter 122]⟩

end Expander

end TexEngine
