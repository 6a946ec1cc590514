/-
  TexEngine.Proofs.Engine.Upcoming

  The tokens that are next, wherever they come from.  `Machine.Yields` says that reading
  without expansion gives certain tokens one by one, from the lines of a text, from
  tokens that were put back, or across the ends of several streams.

  Equal tokens do not make equal machines: a token that was read from a line and put back
  stands in front of the line afterwards.  `Machine.Upcoming` says of two machines that
  reading gives certain tokens in the one and then goes on as in the other.
-/
import TexEngine.Proofs.Engine.Reading

namespace TexEngine

open Eng

/-! ## Reading a list of tokens -/

/-- Reading, without expansion, gives the tokens one after the other and leads from the
    first machine to the second. -/
inductive Machine.Yields : Machine → TokenList → Machine → Prop where
  | nil (m : Machine) : Yields m [] m
  | cons {t : Token} {ts : TokenList} {m m₁ m' : Machine} (h : token? m = .ok (some t) m₁)
      (rest : Yields m₁ ts m') : Yields m (t :: ts) m'

namespace Machine

variable {m m₁ m' e : Machine} {t : Token} {ts us : TokenList}

/-- What a successful reading changes: the input, the marks and the events. -/
theorem exists_of_token? {t? : Option Token} (h : token? m = .ok t? m₁) :
    (m.input.next m.env.lexicon).result = .ok t? ∧ ∃ frozen es, m₁ = Machine.note
      { m with input := (m.input.next m.env.lexicon).source, marked := none, frozen } es := by
  unfold token? at h
  rw [rawToken_apply] at h
  cases hresult : (m.input.next m.env.lexicon).result with
  | error f =>
    simp only [hresult] at h
    contradiction
  | ok u? =>
    simp only [hresult, EStateM.Result.ok.injEq] at h
    obtain ⟨rfl, rfl⟩ := h
    exact ⟨rfl, _, _, rfl⟩

/-- A token is read in the environment of the machine, and does not change it. -/
theorem env_of_token? {t? : Option Token} (h : token? m = .ok t? m₁) : m₁.env = m.env := by
  obtain ⟨-, frozen, es, rfl⟩ := exists_of_token? h
  rfl

/-- At the end of all input, no stream is left. -/
theorem streams_of_token?_none (h : token? m = .ok none m₁) : m₁.input.streams = [] := by
  obtain ⟨hresult, frozen, es, rfl⟩ := exists_of_token? h
  have hsource : (m.input.next m.env.lexicon).source = { m.input with streams := [] } :=
    Source.source_nextFrom_of_none hresult
  show (m.input.next m.env.lexicon).source.streams = []
  rw [hsource]

/-- Where the input has ended, a token that has to be there is missing.  The error has no
    position, since no stream is left. -/
theorem required_of_token?_none {β : Type} (h : token? m = .ok none m₁) (kind : ErrorKind)
    (details : List String) (f : Token → Eng β) :
    (token? >>= fun t? => expect t? kind details >>= f) m =
      .error (.tex { kind, details }) m₁ := by
  have hframes : m₁.input.frames = [] := by
    rw [Source.frames, streams_of_token?_none h]
    rfl
  rw [bind_of_ok h]
  show EStateM.Result.error (Fault.tex (TexError.annotate { kind, details } m₁.input.frames)) m₁ = _
  rw [hframes]
  rfl

/-- A mark does not matter if another token is next. -/
theorem token?_ready_of_ne (h : token? m = .ok (some t) m₁) (hne : m.marked ≠ some t) :
    token? m.ready = .ok (some t) m₁ := by
  unfold token? at h ⊢
  rw [rawToken_apply] at h ⊢
  simp only [Machine.ready] at h ⊢
  generalize m.input.next m.env.lexicon = r at h ⊢
  obtain ⟨result, source, closed⟩ := r
  cases result with
  | error f => contradiction
  | ok t? =>
    simp only [EStateM.Result.ok.injEq] at h ⊢
    obtain ⟨rfl, rfl⟩ := h
    have hfrozen : (m.marked.isSome && m.marked == some t) = false := by simp [hne]
    refine ⟨rfl, ?_⟩
    simp only [note, hfrozen]
    rfl

namespace Yields

theorem env_eq (h : m.Yields ts m') : m'.env = m.env := by
  induction h with
  | nil m => rfl
  | cons h _ ih => rw [ih, env_of_token? h]

theorem append (h : m.Yields ts m₁) (h' : m₁.Yields us m') : m.Yields (ts ++ us) m' := by
  induction h with
  | nil m => exact h'
  | cons h _ ih => exact .cons h (ih h')

/-- A list is read as its parts, one after the other. -/
theorem exists_of_append (h : m.Yields (ts ++ us) m') :
    ∃ m₁, m.Yields ts m₁ ∧ m₁.Yields us m' := by
  induction ts generalizing m with
  | nil => exact ⟨m, .nil m, h⟩
  | cons t ts ih =>
    cases h with
    | cons h rest =>
      obtain ⟨m₁, hts, hus⟩ := ih rest
      exact ⟨m₁, .cons h hts, hus⟩

theorem exists_of_cons (h : m.Yields (t :: ts) m') :
    ∃ m₁, token? m = .ok (some t) m₁ ∧ m₁.Yields ts m' := by
  cases h with
  | cons h rest => exact ⟨_, h, rest⟩

/-- Tokens in front of the input are next. -/
theorem of_feed (m : Machine) (ts us : TokenList) :
    (m.feed (ts ++ us)).Yields ts ((m.passAll ts).feed us) := by
  induction ts generalizing m with
  | nil => exact .nil _
  | cons t ts ih => exact .cons (token?_feed m t (ts ++ us)) (ih (m.pass t))

/-- Where reading a token gives the same, so does reading several. -/
theorem of_token?_eq (h : m.Yields (t :: ts) m') (heq : token? m₁ = token? m) :
    m₁.Yields (t :: ts) m' := by
  obtain ⟨m₂, ht, hrest⟩ := h.exists_of_cons
  exact .cons (heq.trans ht) hrest

/-- A mark on another token than the first one does not matter. -/
theorem token?_ready (h : m.Yields (t :: ts) m') (hne : m.marked ≠ some t) :
    token? m.ready = token? m := by
  obtain ⟨m₁, hread, -⟩ := h.exists_of_cons
  exact (token?_ready_of_ne hread hne).trans hread.symm

end Yields

theorem passAll_of_ready (h : m.ready = m) (us : TokenList) : m.passAll us = m := by
  induction us with
  | nil => rfl
  | cons u us ih =>
    have hpass : m.pass u = m := by
      rw [← h]
      rfl
    rw [passAll_cons, hpass, ih]

end Machine

/-! ## Tokens in front of an input -/

/-- Reading gives the tokens, and then goes on as in `e`.  No token is marked. -/
structure Machine.Upcoming (m : Machine) (ts : TokenList) (e : Machine) : Prop where
  env : m.env = e.env
  ready : m.ready = m
  reads : ∃ m', m.Yields ts m' ∧ token? m' = token? e

namespace Machine.Upcoming

variable {m m' e e' : Machine} {t : Token} {ts us : TokenList}

theorem of_yields (hm : m.ready = m) (h : m.Yields ts e) : m.Upcoming ts e :=
  ⟨h.env_eq.symm, hm, e, h, rfl⟩

/-- Where no token is marked, it does not matter whether the last one was. -/
theorem of_unmarked (hm : m.marked = none) (h : m.Yields ts e) : m.ready.Upcoming ts e := by
  refine ⟨h.env_eq.symm, rfl, ?_⟩
  cases ts with
  | nil =>
    cases h
    exact ⟨m.ready, .nil _, token?_ready m hm⟩
  | cons t ts => exact ⟨e, h.of_token?_eq (token?_ready m hm), rfl⟩

theorem of_ne_marked (h : m.Yields (t :: ts) e) (hne : m.marked ≠ some t) :
    m.ready.Upcoming (t :: ts) e :=
  of_yields rfl (h.of_token?_eq (h.token?_ready hne))

theorem marked (h : m.Upcoming ts e) : m.marked = none := by
  rw [← h.ready]
  rfl

theorem frozen (h : m.Upcoming ts e) : m.frozen = false := by
  rw [← h.ready]
  rfl

/-- The first of the tokens is read. -/
theorem exists_token? (h : m.Upcoming (t :: ts) e) :
    ∃ m₁, token? m = .ok (some t) m₁ ∧ m₁.Upcoming ts e := by
  obtain ⟨m', hyields, hend⟩ := h.reads
  obtain ⟨m₁, ht, hrest⟩ := hyields.exists_of_cons
  obtain ⟨-, hm₁⟩ := token?_eq_ok h.marked ht
  refine ⟨m₁, ht, (env_of_token? ht).trans h.env, ?_, m', hrest, hend⟩
  rw [hm₁]
  rfl

/-- Behind the tokens, reading goes on. -/
theorem token?_eq (h : m.Upcoming [] e) : token? m = token? e := by
  obtain ⟨m', hyields, hend⟩ := h.reads
  cases hyields
  exact hend

/-- At the end of all input, reading changes nothing. -/
theorem of_token?_none (h : m.Upcoming [] e) (hend : token? e = .ok none e') :
    e'.Upcoming [] e := by
  have hread : token? m = .ok none e' := h.token?_eq.trans hend
  obtain ⟨-, he'⟩ := token?_eq_ok h.marked hread
  refine ⟨env_of_token? hend, ?_, e', .nil e', ?_⟩
  · rw [he']
    rfl
  · rw [hend]
    exact token?_of_token?_none h.marked hread

/-- A token that was read can be put back. -/
theorem of_token?_some (h : m.Upcoming [] e) (ht : token? e = .ok (some t) e') :
    (e'.feed [t]).Upcoming [] e := by
  have hread : token? m = .ok (some t) e' := h.token?_eq.trans ht
  obtain ⟨-, he'⟩ := token?_eq_ok h.marked hread
  have hready : e'.ready = e' := by
    rw [he']
    rfl
  have henv : e'.env = e.env := env_of_token? ht
  refine ⟨henv, ?_, _, .nil _, ?_⟩
  · rw [ready_feed, hready]
  · rw [token?_feed, ← passAll_nil (e'.pass t), ← passAll_cons, passAll_of_ready hready,
      feed_nil_of_token? h.marked hread, ht]

/-- Tokens in front of the others are read first. -/
theorem feed (h : m.Upcoming ts e) (us : TokenList) : (m.feed us).Upcoming (us ++ ts) e := by
  have hread : (m.feed us).Yields us (m.feed []) := by
    have hfeed := Yields.of_feed m us []
    rwa [List.append_nil, passAll_of_ready h.ready] at hfeed
  obtain ⟨m', hyields, hend⟩ := h.reads
  refine ⟨h.env, by rw [ready_feed, h.ready], ?_⟩
  cases ts with
  | nil =>
    cases hyields
    rw [List.append_nil]
    exact ⟨m.feed [], hread, (token?_feed_nil m).trans hend⟩
  | cons t ts => exact ⟨m', hread.append (hyields.of_token?_eq (token?_feed_nil m)), hend⟩

theorem exists_push (h : m.Upcoming ts e) (us : TokenList) :
    ∃ m', push us m = .ok () m' ∧ m'.Upcoming (us ++ ts) e := by
  cases us with
  | nil => exact ⟨m, rfl, h⟩
  | cons u us => exact ⟨_, push_apply m (by simp), h.feed (u :: us)⟩

end Machine.Upcoming

/-! ## Operations on what comes next -/

namespace Eng

variable {α β σ : Type} {e : Machine} {act : Eng α} {a : α} {f : α → Eng β} {b : β}
  {ts us vs : TokenList} {err : TexError} {r : Except TexError α}

/-- Where the tokens `ts` come next in front of `e`, the operation gives the value and
    leaves the tokens `us`. -/
def Scans (e : Machine) (act : Eng α) (ts : TokenList) (a : α) (us : TokenList) : Prop :=
  ∀ m, m.Upcoming ts e → ∃ m', act m = .ok a m' ∧ m'.Upcoming us e

/-- Where the tokens come next in front of `e`, the operation fails. -/
def Refuses (e : Machine) (act : Eng α) (ts : TokenList) (err : TexError) : Prop :=
  ∀ m, m.Upcoming ts e → ∃ m', act m = .error (.tex err) m'

/-- An operation that ends in the machine `m`, with a value or with an error. -/
def ended (r : Except TexError α) (m : Machine) : EStateM.Result Fault Machine α :=
  match r with
  | .ok a => .ok a m
  | .error err => .error (.tex err) m

/-- Where the tokens `ts` come next in front of `e`, the operation gives a value or fails, and
    leaves the tokens `us` in either case. -/
def Concludes (e : Machine) (act : Eng α) (ts : TokenList) (r : Except TexError α)
    (us : TokenList) : Prop :=
  ∀ m, m.Upcoming ts e → ∃ m', act m = ended r m' ∧ m'.Upcoming us e

/-- A sequence depends on the machine only through its first operation. -/
theorem bind_congr_left {m n : Machine} (h : act m = act n) (f : α → Eng β) :
    (act >>= f) m = (act >>= f) n := by
  show EStateM.bind act f m = EStateM.bind act f n
  simp only [EStateM.bind, h]

namespace Scans

theorem of_apply (h : ∀ m, m.Upcoming ts e → act m = .ok a m) : Scans e act ts a ts :=
  fun m hm => ⟨m, h m hm, hm⟩

protected theorem pure (a : α) (ts : TokenList) : Scans e (pure a) ts a ts :=
  of_apply fun m _ => pure_apply a m

theorem bind (h : Scans e act ts a us) (h' : Scans e (f a) us b vs) :
    Scans e (act >>= f) ts b vs := by
  intro m hm
  obtain ⟨m₁, hact, hm₁⟩ := h m hm
  obtain ⟨m₂, hf, hm₂⟩ := h' m₁ hm₁
  exact ⟨m₂, (bind_of_ok hact f).trans hf, hm₂⟩

theorem bind_refuses (h : Scans e act ts a us) (h' : Refuses e (f a) us err) :
    Refuses e (act >>= f) ts err := by
  intro m hm
  obtain ⟨m₁, hact, hm₁⟩ := h m hm
  obtain ⟨m₂, hf⟩ := h' m₁ hm₁
  exact ⟨m₂, (bind_of_ok hact f).trans hf⟩

theorem bind_concludes {r : Except TexError β} (h : Scans e act ts a us)
    (h' : Concludes e (f a) us r vs) : Concludes e (act >>= f) ts r vs := by
  intro m hm
  obtain ⟨m₁, hact, hm₁⟩ := h m hm
  obtain ⟨m₂, hf, hm₂⟩ := h' m₁ hm₁
  exact ⟨m₂, (bind_of_ok hact f).trans hf, hm₂⟩

theorem push (us ts : TokenList) : Scans e (push us) ts () (us ++ ts) :=
  fun _ hm => hm.exists_push us

variable {step : σ → Eng (Step σ α)} {s s' : σ}

theorem iterate_again (h : Scans e (step s) ts (.again s') us) {n : Nat}
    (h' : Scans e (iterate step n s') us a vs) : Scans e (iterate step (n + 1) s) ts a vs :=
  h.bind h'

theorem iterate_done (h : Scans e (step s) ts (.done a) us) (n : Nat) :
    Scans e (iterate step (n + 1) s) ts a us :=
  h.bind (.pure a us)

theorem iterate_refuses (h : Scans e (step s) ts (.again s') us) {n : Nat}
    (h' : Refuses e (iterate step n s') us err) : Refuses e (iterate step (n + 1) s) ts err :=
  h.bind_refuses h'

end Scans

theorem Refuses.bind (h : Refuses e act ts err) (f : α → Eng β) : Refuses e (act >>= f) ts err := by
  intro m hm
  obtain ⟨m₁, hact⟩ := h m hm
  exact ⟨m₁, bind_of_error hact f⟩

theorem Refuses.iterate {step : σ → Eng (Step σ α)} {s : σ} (h : Refuses e (step s) ts err)
    (n : Nat) : Refuses e (iterate step (n + 1) s) ts err :=
  h.bind _

/-- What follows an operation that can fail, if it takes no tokens, maps the value. -/
theorem Concludes.bind (h : Concludes e act ts r us) {g : α → β}
    (h' : ∀ a, r = .ok a → Scans e (f a) us (g a) us) :
    Concludes e (act >>= f) ts (r.map g) us := by
  intro m hm
  obtain ⟨m₁, hact, hm₁⟩ := h m hm
  cases r with
  | error err => exact ⟨m₁, bind_of_error hact f, hm₁⟩
  | ok a =>
    obtain ⟨m₂, hf, hm₂⟩ := h' a rfl m₁ hm₁
    exact ⟨m₂, (bind_of_ok hact f).trans hf, hm₂⟩

end Eng

/-! ## Reading with expansion -/

/-- What comes next is no space and cannot be expanded, or nothing comes next. -/
inductive Machine.Stops (e : Machine) : Prop where
  | none {e' : Machine} (h : token? e = .ok none e')
  | some {t : Token} {e' : Machine} (h : token? e = .ok (some t) e')
      (hunexp : Unexpandable e.env t) (hspace : t.hasCat .space = false)

namespace Expander

variable {x : Expander} {e : Machine} {t : Token}

theorem next?_congr (hx : 0 < x.fuel) {m n : Machine} (h : token? m = token? n) :
    x.next? m = x.next? n :=
  x.iterate_nextStep_congr h hx

theorem scans_next? (hx : 0 < x.fuel) (ht : Unexpandable e.env t) (ts : TokenList) :
    Scans e x.next? (t :: ts) (some t) ts := by
  intro m hm
  obtain ⟨m₁, hread, hm₁⟩ := hm.exists_token?
  exact ⟨m₁, x.next?_of_unexpandable hx hread (by rwa [hm₁.env]), hm₁⟩

/-- Spaces in front of a token are skipped. -/
theorem scans_nextNonSpace? (ht : Unexpandable e.env t) (hspace : t.hasCat .space = false)
    (spaces : Nat) (hfuel : spaces < x.fuel) (ts : TokenList) :
    Scans e x.nextNonSpace? (List.replicate spaces .space ++ t :: ts) (some t) ts := by
  have hx : 0 < x.fuel := by omega
  obtain ⟨n, hn⟩ : ∃ n, x.fuel = n + 1 + spaces := ⟨x.fuel - spaces - 1, by omega⟩
  unfold nextNonSpace?
  rw [hn]
  clear hn hfuel
  induction spaces with
  | zero =>
    apply Scans.iterate_done
    apply (scans_next? hx ht ts).bind
    dsimp only
    rw [if_neg (by rw [hspace]; exact Bool.false_ne_true)]
    exact .pure _ _
  | succ spaces ih =>
    rw [← Nat.add_assoc]
    apply Scans.iterate_again _ ih
    exact (scans_next? hx (unexpandable_of_not_isCommand _ rfl) _).bind (.pure _ _)

end Expander

end TexEngine
