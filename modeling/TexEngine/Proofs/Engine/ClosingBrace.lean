/-
  TexEngine.Proofs.Engine.ClosingBrace

  The readers of texts in braces.  There are five of them: a text is read as it is, or with
  expansion; as the argument of a macro; or as the body of a macro, which is expanded or not.
  They treat commands and parameter characters in different ways, but other characters in the
  same: each of them takes a round of `balancedPlain`.  So, on such characters, all of them
  find the same closing brace.
-/
import TexEngine.Proofs.Engine.DefinitionRoundTrip
import TexEngine.Proofs.Engine.DelimitedArgument
import TexEngine.Proofs.Engine.Quoting
import TexEngine.Proofs.Engine.Rescanning

namespace TexEngine

open Eng Expander

/-- The token is a character, and neither an active nor a parameter character. -/
structure Token.IsPlain (t : Token) : Prop where
  is_char : t.isChar = true
  not_active : t.isActive = false
  not_parameter : t.hasCat .parameter = false

instance (t : Token) : Decidable t.IsPlain :=
  decidable_of_iff (t.isChar = true ∧ t.isActive = false ∧ t.hasCat .parameter = false)
    ⟨fun h => ⟨h.1, h.2.1, h.2.2⟩, fun h => ⟨h.is_char, h.not_active, h.not_parameter⟩⟩

theorem Token.IsPlain.not_command {t : Token} (h : t.IsPlain) : t.isCommand = false := by
  cases t with
  | char c k => exact h.not_active
  | _ => exact absurd h.is_char Bool.false_ne_true

/-- The readers of what stands behind an opening brace, up to the brace that closes it. -/
inductive BraceReader where
  | raw
  | expanding
  | argument (d : MacroDef) (call : Token)
  | body (params : Nat) (expand : Bool)

namespace BraceReader

variable {x : Expander} {m m₁ : Machine} {t : Token}

/-- Reads the text. -/
def read (x : Expander) : BraceReader → Eng TokenList
  | raw => x.scanBalanced
  | expanding => x.expandBalanced
  | argument d call => MacroDef.groupArgument x.fuel d call
  | body params expand => x.scanBody params expand

/-- The error at the end of the input. -/
def error : BraceReader → TexError
  | argument _ call => { kind := .runawayArgument, details := [call.text] }
  | _ => { kind := .unterminatedGroup }

/-- One round of the reader. -/
def step (x : Expander) : BraceReader → Nat × TokenList → Eng (Step (Nat × TokenList) TokenList)
  | raw => balancedStep
  | expanding => x.textStep balancedPlain
  | argument d call => d.groupStep call
  | body params true => x.textStep (bodyPlain params)
  | body params false => bodyStep params

theorem read_eq_iterate (x : Expander) (r : BraceReader) :
    r.read x = iterate (r.step x) x.fuel (0, []) := by
  cases r with
  | raw => exact scanBalanced_eq_iterate x
  | expanding => exact expandBalanced_eq_iterate x
  | argument d call => exact MacroDef.groupArgument_eq_iterate x.fuel d call
  | body params expand =>
    cases expand with
    | true => exact scanBody_true_eq_iterate x params
    | false => exact scanBody_eq_iterate x params

section Rounds

variable (s : Nat × TokenList)

theorem balancedStep_eq (h : token? m = .ok (some t) m₁) :
    balancedStep s m = balancedPlain s t m₁ := by
  obtain ⟨depth, seen⟩ := s
  unfold balancedStep
  dsimp only
  rw [bind_of_ok h, bind_of_ok (expect_some ..)]
  rfl

theorem groupStep_eq (d : MacroDef) (call : Token) (ht : t.IsPlain)
    (h : token? m = .ok (some t) m₁) : d.groupStep call s m = balancedPlain s t m₁ := by
  have haccepts := d.accepts_of_not_isCommand m₁.env ht.not_command
  obtain ⟨depth, seen⟩ := s
  unfold MacroDef.groupStep
  dsimp only
  rw [bind_of_ok h, bind_of_ok (expect_some ..),
    bind_of_ok (MacroDef.checkArgument_of_accepts call m₁ haccepts)]
  rfl

theorem bodyPlain_eq (params : Nat) (ht : t.IsPlain) :
    bodyPlain params s t = balancedPlain s t := by
  rw [bodyPlain, ht.not_parameter, if_neg Bool.false_ne_true]

theorem bodyStep_eq (params : Nat) (ht : t.IsPlain) (h : token? m = .ok (some t) m₁) :
    bodyStep params s m = balancedPlain s t m₁ := by
  unfold bodyStep
  rw [bind_of_ok h, bind_of_ok (expect_some ..), ht.not_parameter]
  rfl

/-- On a plain character, the rounds of all readers are the same. -/
theorem step_eq (r : BraceReader) (ht : t.IsPlain) (h : token? m = .ok (some t) m₁) :
    r.step x s m = balancedPlain s t m₁ := by
  have hitem := expandItem_of_not_isCommand x m₁ ht.not_command
  cases r with
  | raw => exact balancedStep_eq s h
  | expanding => exact textStep_of_plain h hitem
  | argument d call => exact groupStep_eq s d call ht h
  | body params expand =>
    cases expand with
    | true => exact (textStep_of_plain h hitem).trans (by rw [bodyPlain_eq s params ht])
    | false => exact bodyStep_eq s params ht h

end Rounds

theorem countsBraces (x : Expander) (r : BraceReader) :
    CountsBraces Token.IsPlain r.error (r.step x) where
  again ht h hd seen := by
    rw [step_eq _ r ht h, balancedPlain, hd]
    rfl
  done ht h hd seen := by
    rw [step_eq _ r ht h, balancedPlain, hd]
    rfl
  ended h s := by
    cases r with
    | raw => exact Machine.required_of_token?_none h .unterminatedGroup [] _
    | expanding => exact Machine.required_of_token?_none h .unterminatedGroup [] _
    | argument d call => exact Machine.required_of_token?_none h .runawayArgument [call.text] _
    | body params expand =>
      cases expand <;> exact Machine.required_of_token?_none h .unterminatedGroup [] _

/-- On plain characters, all readers agree.  Where a balanced list comes first and then a
    closing brace, each of them gives the list and leaves what stands behind the brace.  Where
    no closing brace stands behind a balanced list before the end of the input, all of them
    fail.  And the test that takes the braces off an argument agrees with them: a balanced list
    passes it exactly if it is a balanced list in braces. -/
theorem readers_agree (x : Expander) {m e : Machine} {ts : TokenList} (hread : m.Yields ts e)
    (hplain : ∀ t ∈ ts, t.IsPlain) :
    (∀ us close rest, ts = us ++ close :: rest → Balanced us → close.hasCat .endGroup = true →
      us.length < x.fuel →
      ∃ m₁, m.Yields (us ++ [close]) m₁ ∧ m₁.Yields rest e ∧
        ∀ r : BraceReader, r.read x m = .ok us m₁) ∧
    ((∀ us close rest, ts = us ++ close :: rest → Balanced us → close.hasCat .endGroup = false) →
      ts.length < x.fuel → ∀ e', token? e = .ok none e' →
        ∀ r : BraceReader, r.read x m = .error (.tex r.error) e') ∧
    ∀ us, Balanced us → (isSingleGroup us = true ↔
      ∃ left right inner, Balanced inner ∧
        us = .char left .beginGroup :: (inner ++ [.char right .endGroup])) := by
  refine ⟨?_, ?_, fun us hus => ?_⟩
  · rintro us close rest rfl hus hclose hfuel
    rw [List.append_cons] at hread hplain
    obtain ⟨m₁, htext, hrest⟩ := hread.exists_of_append
    refine ⟨m₁, htext, hrest, fun r => ?_⟩
    rw [r.read_eq_iterate]
    exact (r.countsBraces x).reads htext (List.forall_mem_append.mp hplain).1 hus hclose hfuel
  · intro hopen hfuel e' hend r
    -- A brace that is closed too early would stand behind a balanced list.
    obtain ⟨d, hd⟩ : ∃ d, braceDepthAfter? 0 ts = some d := by
      rw [← Option.ne_none_iff_exists']
      intro hnone
      obtain ⟨us, c, rest, hts, hus⟩ := @exists_unmatched [] ts 0 rfl hnone
      exact Bool.false_ne_true (hopen us (.char c .endGroup) rest hts hus).symm
    rw [r.read_eq_iterate]
    exact (r.countsBraces x).fails hread hplain hd hend hfuel
  · rw [hus.isSingleGroup_iff]
    constructor
    · rintro ⟨g, rfl⟩
      exact ⟨g.left, g.right, g.inner, g.balanced, rfl⟩
    · rintro ⟨left, right, inner, hinner, rfl⟩
      exact ⟨⟨left, right, inner, hinner⟩, rfl⟩

/-- A text with a group in it. -/
def nested : TokenList :=
  [.letter 97, .char 123 .beginGroup, .letter 98, .char 125 .endGroup]

/-- The brace of the inner group does not end the text; without another one, the text has no
    end. -/
theorem readers_agree_nested :
    let x := ofDepth 9 1
    let closed : Machine := Machine.feed { env := {} } (nested ++ [.char 125 .endGroup, .letter 99])
    let unclosed : Machine := Machine.feed { env := {} } nested
    (∃ m₁, closed.Yields (nested ++ [.char 125 .endGroup]) m₁ ∧
      ∀ r : BraceReader, r.read x closed = .ok nested m₁) ∧
    (∃ e, ∀ r : BraceReader, r.read x unclosed = .error (.tex r.error) e) ∧
    isSingleGroup (nested.drop 1) = true := by
  intro x closed unclosed
  have hnested : Balanced nested := balanced_iff_braceDepthAfter?.mpr rfl
  have hgroup : Balanced (nested.drop 1) := balanced_iff_braceDepthAfter?.mpr rfl
  have hclosed := Machine.Yields.of_feed { env := {} }
    (nested ++ [.char 125 .endGroup, .letter 99]) []
  have hunclosed := Machine.Yields.of_feed { env := {} } nested []
  rw [List.append_nil] at hclosed hunclosed
  obtain ⟨hread, -, hsingle⟩ := readers_agree x hclosed (by decide)
  obtain ⟨m₁, htext, -, hall⟩ := hread nested (.char 125 .endGroup) [.letter 99] rfl hnested rfl
    (by decide)
  obtain ⟨-, hfail, -⟩ := readers_agree x hunclosed (by decide)
  have hend : token? ((Machine.passAll { env := {} } nested).feed []) = .ok none _ :=
    (token?_feed_nil _).trans rfl
  refine ⟨⟨m₁, htext, hall⟩, ⟨_, hfail ?_ (by decide) _ hend⟩, ?_⟩
  · intro us close rest hsplit hus
    rw [Bool.eq_false_iff]
    intro hclose
    -- Counting goes through the whole list, so it stops at none of its braces.
    have hnone := hus.braceDepthAfter?_append_close hclose rest
    rw [← hsplit] at hnone
    contradiction
  · exact (hsingle _ hgroup).mpr ⟨123, 125, [.letter 98], .token rfl rfl .nil, rfl⟩

end BraceReader

end TexEngine
