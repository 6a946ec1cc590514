/-
  TexEngine.Proofs.Engine.Braces

  Brace depths and balanced lists.  The loops of the engine count braces, token after
  token; what they read is balanced in the sense of `Balanced` if the count has come
  back to zero and no brace was closed too early.
-/
import TexEngine.Proofs.Engine.Arguments
import TexEngine.Proofs.Engine.Upcoming

namespace TexEngine

/-- The brace depth behind a list; `none` if the list closes a brace that is not
    open. -/
def braceDepthAfter? (depth : Nat) (ts : TokenList) : Option Nat :=
  ts.foldlM braceDepth? depth

variable {ts us : TokenList} {t : Token} {d e : Nat}

@[simp] theorem braceDepthAfter?_nil (d : Nat) : braceDepthAfter? d [] = some d := rfl

theorem braceDepthAfter?_cons (d : Nat) (t : Token) (ts : TokenList) :
    braceDepthAfter? d (t :: ts) = (braceDepth? d t).bind (braceDepthAfter? · ts) := rfl

theorem braceDepthAfter?_append (d : Nat) (ts us : TokenList) :
    braceDepthAfter? d (ts ++ us) = (braceDepthAfter? d ts).bind (braceDepthAfter? · us) :=
  List.foldlM_append

/-- A list that has been read up to now, latest token first, with one more token. -/
theorem braceDepthAfter?_reverse_cons (h : braceDepthAfter? d ts.reverse = some e) :
    braceDepthAfter? d (t :: ts).reverse = braceDepth? e t := by
  rw [List.reverse_cons, braceDepthAfter?_append, h, Option.bind_some, braceDepthAfter?_cons]
  exact Option.bind_fun_some (braceDepth? e t)

/-- What a token can be, as far as braces are concerned. -/
theorem braceDepth?_cases (t : Token) :
    (∃ c, t = .char c .beginGroup) ∨ (∃ c, t = .char c .endGroup) ∨
      (t.hasCat .beginGroup = false ∧ t.hasCat .endGroup = false) := by
  cases t with
  | char c k =>
    cases k with
    | beginGroup => exact .inl ⟨c, rfl⟩
    | endGroup => exact .inr (.inl ⟨c, rfl⟩)
    | _ => exact .inr (.inr ⟨rfl, rfl⟩)
  | _ => exact .inr (.inr ⟨rfl, rfl⟩)

/-- A balanced list leaves every depth as it is. -/
theorem Balanced.braceDepthAfter? (h : Balanced ts) (d : Nat) : braceDepthAfter? d ts = some d := by
  induction h generalizing d with
  | nil => rfl
  | token hopen hclose _ ih =>
    rw [braceDepthAfter?_cons, braceDepth?_of_not_brace hopen hclose]
    exact ih d
  | group left right _ _ ihts ihus =>
    rw [braceDepthAfter?_cons, braceDepth?_open, Option.bind_some, braceDepthAfter?_append, ihts,
      Option.bind_some, braceDepthAfter?_cons, braceDepth?_close]
    exact ihus d

/-- A list that leads from depth `d` down to zero begins with a balanced list; behind it
    stands the brace that closes the innermost open one, if there is one. -/
theorem exists_balanced_of_braceDepthAfter? (ts : TokenList) (d : Nat)
    (h : braceDepthAfter? d ts = some 0) :
    ∃ us vs, ts = us ++ vs ∧ Balanced us ∧ (d = 0 ∧ vs = [] ∨
      ∃ c ws d', d = d' + 1 ∧ vs = .char c .endGroup :: ws ∧ braceDepthAfter? d' ws = some 0) := by
  induction hn : ts.length using Nat.strongRecOn generalizing ts d with
  | ind n ih =>
    subst hn
    cases ts with
    | nil =>
      injection h with h
      exact ⟨[], [], rfl, .nil, .inl ⟨h, rfl⟩⟩
    | cons t ts =>
      rw [braceDepthAfter?_cons] at h
      rcases braceDepth?_cases t with ⟨left, rfl⟩ | ⟨right, rfl⟩ | ⟨hopen, hclose⟩
      · -- The group that begins here ends at the first closing brace of its own level.
        rw [braceDepth?_open, Option.bind_some] at h
        obtain ⟨us, vs, rfl, hus, ⟨hzero, -⟩ | ⟨right, ws, d', hd, rfl, hws⟩⟩ :=
          ih ts.length (by simp) ts (d + 1) h rfl
        · contradiction
        · obtain rfl : d = d' := by omega
          obtain ⟨us', vs', rfl, hus', hrest⟩ := ih ws.length (by simp; omega) ws d hws rfl
          exact ⟨_, vs', by simp, .group left right hus hus', hrest⟩
      · cases d with
        | zero => contradiction
        | succ d =>
          rw [braceDepth?_close, Option.bind_some] at h
          exact ⟨[], _, rfl, .nil, .inr ⟨right, ts, d, rfl, rfl, h⟩⟩
      · rw [braceDepth?_of_not_brace hopen hclose, Option.bind_some] at h
        obtain ⟨us, vs, rfl, hus, hrest⟩ := ih ts.length (by simp) ts d h rfl
        exact ⟨t :: us, vs, rfl, .token hopen hclose hus, hrest⟩

/-- Counting decides whether a list is balanced. -/
theorem balanced_iff_braceDepthAfter? : Balanced ts ↔ braceDepthAfter? 0 ts = some 0 := by
  constructor
  · exact fun h => h.braceDepthAfter? 0
  · intro h
    obtain ⟨us, vs, rfl, hus, ⟨-, rfl⟩ | ⟨c, ws, d', hd, -⟩⟩ :=
      exists_balanced_of_braceDepthAfter? ts 0 h
    · rwa [List.append_nil]
    · contradiction

/-- Counting stops at a closing brace behind a balanced list. -/
theorem Balanced.braceDepthAfter?_append_close (h : Balanced ts)
    (hclose : t.hasCat .endGroup = true) (us : TokenList) :
    TexEngine.braceDepthAfter? 0 (ts ++ t :: us) = none := by
  obtain ⟨c, rfl⟩ := hasCat_iff.mp hclose
  rw [braceDepthAfter?_append, h.braceDepthAfter?]
  rfl

/-- The end of a balanced text: the brace that would close it is not open in it. -/
theorem balanced_of_braceDepth?_none (h : braceDepthAfter? 0 ts = some d)
    (hend : braceDepth? d t = none) : Balanced ts := by
  rcases braceDepth?_cases t with ⟨c, rfl⟩ | ⟨c, rfl⟩ | ⟨hopen, hclose⟩
  · contradiction
  · cases d with
    | zero => exact balanced_iff_braceDepthAfter?.mpr h
    | succ d => contradiction
  · rw [braceDepth?_of_not_brace hopen hclose] at hend
    contradiction

theorem balanced_of_not_brace
    (h : ∀ t ∈ ts, t.hasCat .beginGroup = false ∧ t.hasCat .endGroup = false) : Balanced ts := by
  induction ts with
  | nil => exact .nil
  | cons t ts ih =>
    rw [List.forall_mem_cons] at h
    exact .token h.1.1 h.1.2 (ih h.2)

/-! ## Loops that count braces -/

open Eng

/-- The rounds of a loop that reads up to the brace that closes an open one.  A token with the
    property `p` is counted and added to those that were seen; if it closes the brace, these
    are the result.  At the end of the input, the loop fails with the error `err`. -/
structure CountsBraces (p : Token → Prop) (err : TexError)
    (step : Nat × TokenList → Eng (Step (Nat × TokenList) TokenList)) : Prop where
  again {t : Token} {m m₁ : Machine} {d d' : Nat} (ht : p t) (h : token? m = .ok (some t) m₁)
    (hd : braceDepth? d t = some d') (seen : TokenList) :
    step (d, seen) m = .ok (.again (d', t :: seen)) m₁
  done {t : Token} {m m₁ : Machine} {d : Nat} (ht : p t) (h : token? m = .ok (some t) m₁)
    (hd : braceDepth? d t = none) (seen : TokenList) :
    step (d, seen) m = .ok (.done seen.reverse) m₁
  ended {m m₁ : Machine} (h : token? m = .ok none m₁) (s : Nat × TokenList) :
    step s m = .error (.tex err) m₁

namespace CountsBraces

variable {p : Token → Prop} {err : TexError} {seen : TokenList} {close : Token}
  {step : Nat × TokenList → Eng (Step (Nat × TokenList) TokenList)} {m m₁ m' : Machine}

/-- As long as no brace is closed that was not opened, each token takes one round. -/
theorem iterate_eq (h : CountsBraces p err step) (hread : m.Yields ts m') (hts : ∀ t ∈ ts, p t)
    (hd : braceDepthAfter? d ts = some e) (n : Nat) :
    iterate step (n + ts.length) (d, seen) m = iterate step n (e, ts.reverse ++ seen) m' := by
  -- The depth goes from token to token, and the rounds that are left are those of `n`.
  induction ts generalizing m d seen with
  | nil =>
    cases hread
    rw [Option.some.inj hd]
    rfl
  | cons t ts ih =>
    obtain ⟨m₁, ht, hrest⟩ := hread.exists_of_cons
    rw [List.forall_mem_cons] at hts
    rw [braceDepthAfter?_cons, Option.bind_eq_some_iff] at hd
    obtain ⟨d₁, hfirst, hd⟩ := hd
    rw [List.length_cons, ← Nat.add_assoc, iterate_of_again (h.again hts.1 ht hfirst seen),
      ih hrest hts.2 hd, List.reverse_cons, List.append_assoc]
    rfl

/-- A balanced list is read up to the brace that closes it. -/
theorem reads (h : CountsBraces p err step) (hread : m.Yields (ts ++ [close]) m')
    (hp : ∀ t ∈ ts ++ [close], p t) (hts : Balanced ts) (hclose : close.hasCat .endGroup = true)
    {n : Nat} (hn : ts.length < n) : iterate step n (0, []) m = .ok ts m' := by
  obtain ⟨m₁, htext, hend⟩ := hread.exists_of_append
  obtain ⟨m₂, ht, hnil⟩ := hend.exists_of_cons
  cases hnil
  rw [List.forall_mem_append, List.forall_mem_singleton] at hp
  have hdone : braceDepth? 0 close = none := by
    obtain ⟨c, rfl⟩ := hasCat_iff.mp hclose
    rfl
  obtain ⟨k, rfl⟩ : ∃ k, n = k + 1 + ts.length := ⟨n - ts.length - 1, by omega⟩
  rw [h.iterate_eq htext hp.1 (hts.braceDepthAfter? 0), List.append_nil,
    iterate_of_done (h.done hp.2 ht hdone _), List.reverse_reverse]

/-- The end of the input comes before the brace. -/
theorem fails (h : CountsBraces p err step) (hread : m.Yields ts m') (hp : ∀ t ∈ ts, p t)
    (hd : braceDepthAfter? 0 ts = some d) (hend : token? m' = .ok none m₁) {n : Nat}
    (hn : ts.length < n) : iterate step n (0, []) m = .error (.tex err) m₁ := by
  obtain ⟨k, rfl⟩ : ∃ k, n = k + 1 + ts.length := ⟨n - ts.length - 1, by omega⟩
  rw [h.iterate_eq hread hp hd]
  exact bind_of_error (h.ended hend _) _

end CountsBraces

end TexEngine
