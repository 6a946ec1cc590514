/-
  TexEngine.Proofs.Engine.Reading

  Reading tokens that are known to be next.  `Machine.feed` puts tokens in front
  of the input; reading takes them off again one by one, and behind the last one
  goes on as if they had never been there.  `Machine.peek` is the machine after a
  look at the next token, which is put back.

  Operations of the engine that only read such tokens are evaluated with the
  equations below: one for each of the basic operations, one for a step of a loop,
  and one for reading with expansion where nothing can be expanded.
-/
import TexEngine.Engine.Expander

namespace TexEngine

/-! ## Sequences and loops -/

namespace Eng

variable {α β σ : Type} {m m' : Machine}

theorem bind_of_ok {act : Eng α} {a : α} (h : act m = .ok a m') (f : α → Eng β) :
    (act >>= f) m = f a m' := by
  show EStateM.bind act f m = f a m'
  simp only [EStateM.bind, h]

theorem bind_of_error {act : Eng α} {e : Fault} (h : act m = .error e m') (f : α → Eng β) :
    (act >>= f) m = .error e m' := by
  show EStateM.bind act f m = .error e m'
  simp only [EStateM.bind, h]

/-- A sequence that succeeds, in reverse. -/
theorem exists_of_bind_eq_ok {act : Eng α} {f : α → Eng β} {b : β}
    (h : (act >>= f) m = .ok b m') : ∃ a m₁, act m = .ok a m₁ ∧ f a m₁ = .ok b m' := by
  cases hact : act m with
  | ok a m₁ =>
    rw [bind_of_ok hact] at h
    exact ⟨a, m₁, rfl, h⟩
  | error e m₁ =>
    rw [bind_of_error hact] at h
    contradiction

/-- The result of an operation, if it succeeds. -/
def value? (act : Eng α) (m : Machine) : Option α :=
  match act m with
  | .ok a _ => some a
  | .error _ _ => none

theorem exists_of_value?_eq_some {act : Eng α} {a : α} (h : act.value? m = some a) :
    ∃ m', act m = .ok a m' := by
  unfold value? at h
  cases hact : act m with
  | ok b m' =>
    rw [hact] at h
    injection h with h
    exact ⟨m', by rw [h]⟩
  | error e m' =>
    rw [hact] at h
    contradiction

theorem pure_apply (a : α) (m : Machine) : (pure a : Eng α) m = .ok a m := rfl

theorem iterate_of_again {step : σ → Eng (Step σ α)} {s s' : σ}
    (h : step s m = .ok (.again s') m') (n : Nat) :
    iterate step (n + 1) s m = iterate step n s' m' := by
  rw [iterate, bind_of_ok h]

theorem iterate_of_done {step : σ → Eng (Step σ α)} {s : σ} {a : α}
    (h : step s m = .ok (.done a) m') (n : Nat) :
    iterate step (n + 1) s m = .ok a m' := by
  rw [iterate, bind_of_ok h]
  rfl

/-- What every round of a loop preserves holds of its result. -/
theorem iterate_induct {step : σ → Eng (Step σ α)} {I : σ → Prop} {Q : α → Prop}
    (hagain : ∀ s s' m m', I s → step s m = .ok (.again s') m' → I s')
    (hdone : ∀ s a m m', I s → step s m = .ok (.done a) m' → Q a) {n : Nat} {s : σ} {a : α}
    (hs : I s) (h : iterate step n s m = .ok a m') : Q a := by
  induction n generalizing s m with
  | zero => contradiction
  | succ n ih =>
    obtain ⟨r, m₁, hstep, hrest⟩ := exists_of_bind_eq_ok h
    cases r with
    | again s' => exact ih (hagain s s' m m₁ hs hstep) hrest
    | done b =>
      obtain ⟨rfl, rfl⟩ : b = a ∧ m₁ = m' := by simpa [pure_apply] using hrest
      exact hdone s b m m₁ hs hstep

end Eng

/-! ## Tokens in front of the input -/

/-- Tokens in front of an input.  Where there is no stream, one is opened for
    them, also if there are no tokens. -/
def Source.feed (src : Source) (ts : TokenList) : Source :=
  match src.streams with
  | [] => { src with streams := [{ pushed := ts }], pending := src.pending + ts.length }
  | s :: rest =>
    { src with streams := { s with pushed := ts ++ s.pushed } :: rest,
               pending := src.pending + ts.length }

namespace Source

theorem push_feed (src : Source) (ts us : TokenList) :
    (src.feed us).push ts = src.feed (ts ++ us) := by
  cases ts with
  | nil => rfl
  | cons t ts =>
    cases hs : src.streams with
    | nil =>
      simp only [feed, push, hs, List.length_append, List.length_cons]
      rw [Nat.add_assoc, Nat.add_comm us.length]
    | cons s rest =>
      simp only [feed, push, hs, List.length_append, List.length_cons, List.append_assoc]
      rw [Nat.add_assoc, Nat.add_comm us.length]

theorem push_eq_feed (src : Source) {ts : TokenList} (h : ts ≠ []) : src.push ts = src.feed ts := by
  cases ts with
  | nil => exact absurd rfl h
  | cons t ts =>
    cases hs : src.streams with
    | nil => simp [feed, push, hs]
    | cons s rest => simp [feed, push, hs]

theorem feed_nil (src : Source) (h : src.streams ≠ []) : src.feed [] = src := by
  cases hs : src.streams with
  | nil => exact absurd hs h
  | cons s rest =>
    obtain ⟨baseDir, streams, pending⟩ := src
    subst hs
    rfl

theorem feed_feed (src : Source) (ts us : TokenList) :
    (src.feed us).feed ts = src.feed (ts ++ us) := by
  cases hs : src.streams with
  | nil => simp [feed, hs, Nat.add_comm, Nat.add_left_comm]
  | cons s rest => simp [feed, hs, Nat.add_comm, Nat.add_left_comm]

/-- The first of the tokens in front is read. -/
theorem next_feed_cons (lex : Lexicon) (src : Source) (t : Token) (ts : TokenList) :
    (src.feed (t :: ts)).next lex = { result := .ok (some t), source := src.feed ts } := by
  cases hs : src.streams with
  | nil => simp [feed, next, nextFrom, hs]
  | cons s rest => simp [feed, next, nextFrom, hs]

/-- A stream that was opened for tokens has nothing else to give. -/
theorem nextFrom_emptyStream (lex : Lexicon) (src : Source) (closed : List StreamId) :
    nextFrom lex src closed [{}] =
      { result := .ok none, source := { src with streams := [] }, closed := closed.reverse } := by
  have hcursor : ({} : Cursor).next? lex.catcode = (none, {}) := by
    rw [Cursor.next?]
    exact dif_neg (Nat.lt_irrefl 0)
  simp [nextFrom, Stream.read, hcursor, streamId?]

/-- Without tokens in front, reading goes on behind them. -/
theorem next_feed_nil (lex : Lexicon) (src : Source) : (src.feed []).next lex = src.next lex := by
  cases hs : src.streams with
  | nil =>
    have hfeed : (src.feed []).streams = [{}] := by simp only [feed, hs]
    rw [next, next, hfeed, nextFrom_emptyStream, hs]
    simp only [feed, hs]
    rfl
  | cons s rest => rw [feed_nil src (by simp [hs])]

/-- At the end of all input, no stream is left. -/
theorem source_nextFrom_of_none {lex : Lexicon} {src : Source} {closed : List StreamId}
    {streams : List Stream} (h : (nextFrom lex src closed streams).result = .ok none) :
    (nextFrom lex src closed streams).source = { src with streams := [] } := by
  fun_induction nextFrom lex src closed streams with
  | case1 closed => rfl
  | case2 closed s rest t ts hpushed => simp at h
  | case3 closed s rest hpushed t s' hread => simp at h
  | case4 closed s rest hpushed f s' hread src' => simp at h
  | case5 closed s rest hpushed s' hread ih => exact ih h

/-- Behind a token, its stream is still there. -/
theorem streams_nextFrom_of_some {lex : Lexicon} {src : Source} {closed : List StreamId}
    {streams : List Stream} {t : Token}
    (h : (nextFrom lex src closed streams).result = .ok (some t)) :
    (nextFrom lex src closed streams).source.streams ≠ [] := by
  fun_induction nextFrom lex src closed streams with
  | case1 closed => simp at h
  | case2 closed s rest t ts hpushed => simp
  | case3 closed s rest hpushed t s' hread => simp
  | case4 closed s rest hpushed f s' hread src' => simp at h
  | case5 closed s rest hpushed s' hread ih => exact ih h

/-- Behind the end of all input is the end of all input. -/
theorem next_of_next_none {lex : Lexicon} {src : Source} (h : (src.next lex).result = .ok none) :
    (src.next lex).source.next lex = { result := .ok none, source := (src.next lex).source } := by
  have hsource : (src.next lex).source = { src with streams := [] } := source_nextFrom_of_none h
  rw [hsource]
  rfl

end Source

/-- Tokens in front of the input of a machine. -/
def Machine.feed (m : Machine) (ts : TokenList) : Machine :=
  { m with input := m.input.feed ts }

/-- No token is marked, and the token read last was not marked. -/
def Machine.ready (m : Machine) : Machine :=
  { m with marked := none, frozen := false }

/-- The machine once a token has been read: the mark, if there was one, is gone. -/
def Machine.pass (m : Machine) (t : Token) : Machine :=
  { m with marked := none, frozen := m.marked.isSome && m.marked == some t }

/-- The machine once some tokens have been read. -/
def Machine.passAll (m : Machine) (ts : TokenList) : Machine :=
  ts.foldl Machine.pass m

/-- A machine that has reported further events. -/
def Machine.note (m : Machine) (events : List Event) : Machine :=
  { m with log := events.foldl Array.push m.log }

namespace Machine

@[simp] theorem note_nil (m : Machine) : m.note [] = m := rfl

@[simp] theorem note_note (m : Machine) (es fs : List Event) :
    (m.note es).note fs = m.note (es ++ fs) := by
  unfold note
  rw [List.foldl_append]

@[simp] theorem env_note (m : Machine) (es : List Event) : (m.note es).env = m.env := rfl

@[simp] theorem marked_note (m : Machine) (es : List Event) : (m.note es).marked = m.marked := rfl

@[simp] theorem marked_ready (m : Machine) : m.ready.marked = none := rfl

@[simp] theorem frozen_ready (m : Machine) : m.ready.frozen = false := rfl

@[simp] theorem env_ready (m : Machine) : m.ready.env = m.env := rfl

@[simp] theorem ready_ready (m : Machine) : m.ready.ready = m.ready := rfl

@[simp] theorem env_feed (m : Machine) (ts : TokenList) : (m.feed ts).env = m.env := rfl

@[simp] theorem marked_feed (m : Machine) (ts : TokenList) : (m.feed ts).marked = m.marked := rfl

@[simp] theorem frozen_feed (m : Machine) (ts : TokenList) : (m.feed ts).frozen = m.frozen := rfl

@[simp] theorem ready_feed (m : Machine) (ts : TokenList) : (m.feed ts).ready = m.ready.feed ts :=
  rfl

@[simp] theorem feed_feed (m : Machine) (ts us : TokenList) :
    (m.feed us).feed ts = m.feed (ts ++ us) := by
  unfold feed
  rw [Source.feed_feed]

@[simp] theorem note_feed (m : Machine) (ts : TokenList) (es : List Event) :
    (m.feed ts).note es = (m.note es).feed ts := rfl

@[simp] theorem ready_note (m : Machine) (es : List Event) : (m.note es).ready = m.ready.note es :=
  rfl

@[simp] theorem env_pass (m : Machine) (t : Token) : (m.pass t).env = m.env := rfl

@[simp] theorem passAll_nil (m : Machine) : m.passAll [] = m := rfl

@[simp] theorem passAll_cons (m : Machine) (t : Token) (ts : TokenList) :
    m.passAll (t :: ts) = (m.pass t).passAll ts := rfl

@[simp] theorem passAll_append (m : Machine) (ts us : TokenList) :
    m.passAll (ts ++ us) = (m.passAll ts).passAll us := List.foldl_append

/-- Reading tokens changes nothing but the mark. -/
@[simp] theorem ready_passAll (m : Machine) (ts : TokenList) : (m.passAll ts).ready = m.ready := by
  induction ts generalizing m with
  | nil => rfl
  | cons t ts ih => exact ih (m.pass t)

@[simp] theorem env_passAll (m : Machine) (ts : TokenList) : (m.passAll ts).env = m.env := by
  rw [← env_ready, ready_passAll, env_ready]

end Machine

namespace Eng

/-! ## Basic operations -/

variable {m m' : Machine}

/-- The meaning that a token has in an environment. -/
def meaningIn (env : Env Meaning) (t : Token) : Option Meaning :=
  if t = .frozenRelax then some Meaning.relax else env.meaning? t

theorem meaning?_apply (t : Token) (m : Machine) :
    meaning? t m = .ok (meaningIn m.env t) m := by
  unfold meaning? meaningIn
  by_cases h : t = .frozenRelax
  · simp only [h, if_true]
    rfl
  · simp only [h, if_false]
    rfl

theorem get_apply (m : Machine) : (get : Eng Machine) m = .ok m m := rfl

theorem env_apply (m : Machine) : env m = .ok m.env m := rfl

theorem expect_some (t : Token) (kind : ErrorKind) (details : List String) (m : Machine) :
    expect (some t) kind details m = .ok t m := rfl

theorem emit_apply (e : Event) (m : Machine) : emit e m = .ok () (m.note [e]) := rfl

/-- Where everything was exact, there is nothing to note. -/
theorem observe_of_fits {fits : Bool} (h : fits = true) (m : Machine) :
    observe fits m = .ok () m := by
  rw [h]
  rfl

theorem isFrozen_apply (m : Machine) : isFrozen m = .ok m.frozen m := rfl

theorem push_feed (m : Machine) (ts us : TokenList) :
    push ts (m.feed us) = .ok () (m.feed (ts ++ us)) := by
  show EStateM.Result.ok () _ = _
  unfold Machine.feed
  rw [← Source.push_feed]

theorem push_apply (m : Machine) {ts : TokenList} (h : ts ≠ []) :
    push ts m = .ok () (m.feed ts) := by
  show EStateM.Result.ok () _ = _
  unfold Machine.feed
  rw [← Source.push_eq_feed m.input h]

/-- The events of a diagnostic: none if its level is not wanted. -/
def traceEvents (wanted : Option TraceLevel) (level : TraceLevel) (tracer : Tracer)
    (text : String) : List Event :=
  match wanted with
  | some w => if level.rank ≤ w.rank then [.trace level tracer text] else []
  | none => []

theorem trace_apply (level : TraceLevel) (tracer : Tracer) (text : Unit → String) (m : Machine) :
    trace level tracer text m =
      .ok () (m.note (traceEvents m.traceLevel level tracer (text ()))) := by
  unfold trace traceEvents
  rw [bind_of_ok (get_apply m)]
  cases m.traceLevel with
  | none => rfl
  | some wanted =>
    by_cases h : level.rank ≤ wanted.rank
    · simp only [h, if_true]
      rfl
    · simp only [h, if_false]
      rfl

theorem opened_apply (name : String) (isFile : Bool) (m : Machine) :
    ∃ es, opened name isFile m = .ok () (m.note es) := by
  have htrace := trace_apply .debug .input (fun _ => "open " ++ name) m
  rw [opened, bind_of_ok htrace, emit_apply, Machine.note_note]
  exact ⟨_, rfl⟩

/-- Opening a text. -/
theorem pushText_apply (text name : String) (m : Machine) :
    ∃ es, pushText text name m =
      .ok () (Machine.note { m with input := m.input.pushText text name } es) :=
  opened_apply name false { m with input := m.input.pushText text name }

/-- Opening a file, or not finding it. -/
theorem includeFile_apply (fileName : String) (m : Machine) :
    ∃ es, includeFile fileName m =
      match m.input.includeFile m.files fileName with
      | .ok (src, _) => .ok () (Machine.note { m with input := src } es)
      | .error f => .error f (m.note es) := by
  let sought : Event := .sought (Reader.inputPath m.input.baseDir fileName)
  unfold includeFile
  rw [bind_of_ok (get_apply m), bind_of_ok (emit_apply sought m)]
  cases m.input.includeFile m.files fileName with
  | error f => exact ⟨[sought], rfl⟩
  | ok p =>
    obtain ⟨src, r⟩ := p
    obtain ⟨es, hopen⟩ :=
      opened_apply r.name r.isFile (Machine.note { m with input := src } [sought])
    refine ⟨sought :: es, hopen.trans ?_⟩
    rw [Machine.note_note]
    rfl

theorem tryCatch_apply {α : Type} (act : Eng α) (handler : Fault → Eng α) (m : Machine) :
    tryCatch act handler m =
      match act m with
      | .ok a m' => .ok a m'
      | .error f m' => handler f m' := by
  show EStateM.tryCatch act handler m = _
  unfold EStateM.tryCatch
  cases act m <;> rfl

/-- The events of closing streams. -/
def closeEvents (wanted : Option TraceLevel) : List StreamId → List Event
  | [] => []
  | s :: ss =>
    traceEvents wanted .debug .input ("close " ++ s.name) ++
      .closed s.name s.isFile :: closeEvents wanted ss

theorem closed_apply (ss : List StreamId) (m : Machine) :
    closed ss m = .ok () (m.note (closeEvents m.traceLevel ss)) := by
  induction ss generalizing m with
  | nil => rfl
  | cons s ss ih =>
    rw [closed, bind_of_ok (trace_apply ..), bind_of_ok (emit_apply ..), ih, Machine.note_note,
      Machine.note_note]
    rfl

/-- Reading takes a token from the input and reports the streams that end. -/
theorem rawToken_apply (m : Machine) :
    rawToken m =
      let r := m.input.next m.env.lexicon
      let m' := Machine.note { m with input := r.source } (closeEvents m.traceLevel r.closed)
      match r.result with
      | .ok t? => .ok t? m'
      | .error f => .error f m' := by
  have hrun : rawToken m = (do
      closed (m.input.next m.env.lexicon).closed
      match (m.input.next m.env.lexicon).result with
      | .ok t? => return t?
      | .error f => throw f : Eng (Option Token))
        { m with input := (m.input.next m.env.lexicon).source } := rfl
  rw [hrun, bind_of_ok (closed_apply ..)]
  generalize m.input.next m.env.lexicon = r
  obtain ⟨result, source, closed⟩ := r
  cases result <;> rfl

theorem rawToken_feed_cons (m : Machine) (t : Token) (ts : TokenList) :
    rawToken (m.feed (t :: ts)) = .ok (some t) (m.feed ts) := by
  rw [rawToken_apply]
  have hnext := Source.next_feed_cons m.env.lexicon m.input t ts
  simp only [Machine.feed, hnext]
  rfl

theorem rawToken_feed_nil (m : Machine) : rawToken (m.feed []) = rawToken m := by
  rw [rawToken_apply, rawToken_apply]
  have hnext := Source.next_feed_nil m.env.lexicon m.input
  simp only [Machine.feed, hnext]

/-- Reading takes off the first of the tokens in front. -/
theorem token?_feed (m : Machine) (t : Token) (ts : TokenList) :
    token? (m.feed (t :: ts)) = .ok (some t) ((m.pass t).feed ts) := by
  unfold token?
  rw [rawToken_feed_cons]
  rfl

/-- A token that is not marked can be expanded where it is read. -/
theorem token?_feed_cons (m : Machine) (t : Token) (ts : TokenList) (hm : m.marked ≠ some t) :
    token? (m.feed (t :: ts)) = .ok (some t) (m.ready.feed ts) := by
  have hfrozen : (m.marked.isSome && m.marked == some t) = false := by
    simp [hm]
  rw [token?_feed, Machine.pass, hfrozen]
  rfl

theorem token?_feed_nil (m : Machine) : token? (m.feed []) = token? m := by
  unfold token?
  rw [rawToken_feed_nil]

/-- Reading does not depend on whether the token read last was marked. -/
theorem token?_ready (m : Machine) (hm : m.marked = none) : token? m.ready = token? m := by
  unfold token?
  rw [rawToken_apply, rawToken_apply]
  simp only [Machine.ready]
  generalize m.input.next m.env.lexicon = r
  obtain ⟨result, source, closed⟩ := r
  cases result with
  | ok t? => simp only [Machine.note, hm]
  | error f => rfl

/-- Tokens that were pushed are next, if the first of them is not marked. -/
theorem exists_push (m : Machine) (ts : TokenList)
    (hmark : ∀ t, m.marked = some t → ∃ u us, ts = u :: us ∧ u ≠ t) :
    ∃ m', push ts m = .ok () m' ∧ token? m' = token? (m.ready.feed ts) := by
  cases ts with
  | nil =>
    have hm : m.marked = none := by
      rw [Option.eq_none_iff_forall_ne_some]
      intro t ht
      obtain ⟨u, us, h, -⟩ := hmark t ht
      contradiction
    exact ⟨m, rfl, by rw [token?_feed_nil, token?_ready m hm]⟩
  | cons u us =>
    refine ⟨m.feed (u :: us), push_apply m (by simp), ?_⟩
    rw [token?_feed_cons m.ready u us (by simp), token?_feed_cons m u us]
    · rfl
    · intro hm
      obtain ⟨u', us', h, hne⟩ := hmark u hm
      injection h with hu
      exact hne hu.symm

/-- What a successful reading changes: the input, and the events. -/
theorem token?_eq_ok {t? : Option Token} (hm : m.marked = none) (h : token? m = .ok t? m') :
    (m.input.next m.env.lexicon).result = .ok t? ∧
      m' = Machine.ready (Machine.note { m with input := (m.input.next m.env.lexicon).source }
        (closeEvents m.traceLevel (m.input.next m.env.lexicon).closed)) := by
  unfold token? at h
  rw [rawToken_apply] at h
  cases hresult : (m.input.next m.env.lexicon).result with
  | error f => simp only [hresult, reduceCtorEq] at h
  | ok u? =>
    simp only [hresult, EStateM.Result.ok.injEq] at h
    obtain ⟨rfl, rfl⟩ := h
    refine ⟨rfl, ?_⟩
    simp only [Machine.ready, Machine.note, hm]
    rfl

/-- Behind a token, putting no tokens in front changes nothing. -/
theorem feed_nil_of_token? {t : Token} (hm : m.marked = none) (h : token? m = .ok (some t) m') :
    m'.feed [] = m' := by
  obtain ⟨hresult, rfl⟩ := token?_eq_ok hm h
  have hstreams : (m.input.next m.env.lexicon).source.streams ≠ [] :=
    Source.streams_nextFrom_of_some hresult
  simp only [Machine.feed, Machine.ready, Machine.note]
  rw [Source.feed_nil _ hstreams]

/-- At the end of all input, reading changes nothing. -/
theorem token?_of_token?_none (hm : m.marked = none) (h : token? m = .ok none m') :
    token? m' = .ok none m' := by
  obtain ⟨hresult, rfl⟩ := token?_eq_ok hm h
  have hnext := Source.next_of_next_none hresult
  unfold token?
  rw [rawToken_apply]
  simp only [Machine.ready, Machine.note, hnext, closeEvents]
  rfl

end Eng

/-! ## Looking ahead -/

/-- The machine once the next token has been read and put back. -/
def Machine.peek (m : Machine) : Machine :=
  match Eng.token? m with
  | .ok (some t) m' => m'.feed [t]
  | .ok none m' => m'
  | .error _ m' => m'

namespace Eng

variable {m m' : Machine} {t? : Option Token}

/-- Reading goes on as before. -/
theorem token?_peek (hm : m.marked = none) (h : token? m = .ok t? m') :
    token? m.peek = .ok t? m' := by
  obtain ⟨-, hm'⟩ := token?_eq_ok hm h
  have hready : m'.ready = m' := by rw [hm']; rfl
  cases t? with
  | none =>
    simp only [Machine.peek, h]
    exact token?_of_token?_none hm h
  | some t =>
    simp only [Machine.peek, h]
    rw [token?_feed_cons _ _ _ (by rw [hm']; simp [Machine.ready]), hready, feed_nil_of_token? hm h]

end Eng

/-! ## Reading with expansion -/

theorem hasCat_iff {t : Token} {k : Catcode} : t.hasCat k = true ↔ ∃ c, t = .char c k := by
  cases t <;> simp [Token.hasCat]

/-- The token has no meaning that could be expanded. -/
def Unexpandable (env : Env Meaning) (t : Token) : Prop :=
  t.isCommand → ∀ μ, Eng.meaningIn env t = some μ → μ.isExpandable = false

/-- A token that is no command is not expanded. -/
theorem unexpandable_of_not_isCommand (env : Env Meaning) {t : Token} (h : t.isCommand = false) :
    Unexpandable env t := by
  intro hcommand
  rw [h] at hcommand
  contradiction

namespace Expander

open Eng

variable {m m' : Machine}

/-- One round of `next?`. -/
def nextStep (x : Expander) (_ : Unit) : Eng (Step Unit (Option Token)) := do
  match ← token? with
  | none => return .done none
  | some t =>
    if (← isFrozen) || !t.isCommand then return .done (some t)
    match ← meaning? t with
    | some m =>
      if m.isExpandable then
        x.expand m t
        return .again ()
      else return .done (some t)
    | none => return .done (some t)

theorem next?_eq_iterate (x : Expander) : x.next? = iterate x.nextStep x.fuel () := rfl

theorem nextStep_of_none (x : Expander) (h : token? m = .ok none m') :
    x.nextStep () m = .ok (.done none) m' := by
  unfold nextStep
  rw [bind_of_ok h]
  rfl

theorem nextStep_congr (x : Expander) {m₁ m₂ : Machine} (h : token? m₁ = token? m₂) :
    x.nextStep () m₁ = x.nextStep () m₂ := by
  show EStateM.bind token? _ m₁ = EStateM.bind token? _ m₂
  simp only [EStateM.bind, h]

theorem iterate_nextStep_congr (x : Expander) {m₁ m₂ : Machine} (h : token? m₁ = token? m₂)
    {n : Nat} (hn : 0 < n) : iterate x.nextStep n () m₁ = iterate x.nextStep n () m₂ := by
  obtain ⟨n, rfl⟩ := Nat.exists_eq_add_one.mpr hn
  show EStateM.bind (x.nextStep ()) _ m₁ = EStateM.bind (x.nextStep ()) _ m₂
  simp only [EStateM.bind, x.nextStep_congr h]

theorem nextStep_of_unexpandable (x : Expander) {t : Token} (h : token? m = .ok (some t) m')
    (ht : Unexpandable m'.env t) : x.nextStep () m = .ok (.done (some t)) m' := by
  unfold nextStep
  rw [bind_of_ok h]
  dsimp only
  rw [bind_of_ok (isFrozen_apply m')]
  by_cases hdone : (m'.frozen || !t.isCommand) = true
  · rw [if_pos hdone]
    rfl
  · rw [if_neg hdone, bind_of_ok (meaning?_apply t m')]
    cases hmeaning : meaningIn m'.env t with
    | none => rfl
    | some μ =>
      have hcommand : t.isCommand = true := by simp_all
      simp only [ht hcommand μ hmeaning]
      rfl

theorem nextStep_of_expandable (x : Expander) {t : Token} {μ : Meaning} {m'' : Machine}
    (h : token? m = .ok (some t) m') (hfrozen : m'.frozen = false) (ht : t.isCommand = true)
    (hmeaning : meaningIn m'.env t = some μ) (hμ : μ.isExpandable = true)
    (hexpand : x.expand μ t m' = .ok () m'') : x.nextStep () m = .ok (.again ()) m'' := by
  unfold nextStep
  rw [bind_of_ok h]
  dsimp only
  rw [bind_of_ok (isFrozen_apply m'), if_neg (by simp [hfrozen, ht]),
    bind_of_ok (meaning?_apply t m'), hmeaning]
  simp only [hμ, if_true]
  rw [bind_of_ok hexpand]
  rfl

/-- Reading gives a token that cannot be expanded as it is. -/
theorem next?_of_unexpandable (x : Expander) (hx : 0 < x.fuel) {t : Token}
    (h : token? m = .ok (some t) m') (ht : Unexpandable m'.env t) :
    x.next? m = .ok (some t) m' := by
  obtain ⟨n, hn⟩ := Nat.exists_eq_add_one.mpr hx
  rw [next?_eq_iterate, hn, iterate_of_done (x.nextStep_of_unexpandable h ht)]

theorem next?_of_none (x : Expander) (hx : 0 < x.fuel) (h : token? m = .ok none m') :
    x.next? m = .ok none m' := by
  obtain ⟨n, hn⟩ := Nat.exists_eq_add_one.mpr hx
  rw [next?_eq_iterate, hn, iterate_of_done (x.nextStep_of_none h)]

/-- Reading one of the tokens in front. -/
theorem next?_feed_cons (x : Expander) (hx : 0 < x.fuel) (m : Machine) (t : Token)
    (ts : TokenList) (hm : m.marked = none) (ht : Unexpandable m.env t) :
    x.next? (m.feed (t :: ts)) = .ok (some t) (m.ready.feed ts) :=
  x.next?_of_unexpandable hx (token?_feed_cons m t ts (by simp [hm])) ht

/-- Reading one of the tokens in front that is no command. -/
theorem next?_feed_of_not_isCommand (x : Expander) (hx : 0 < x.fuel) (m : Machine) {t : Token}
    (ht : t.isCommand = false) (ts : TokenList) :
    x.next? (m.ready.feed (t :: ts)) = .ok (some t) (m.ready.feed ts) :=
  x.next?_feed_cons hx m.ready t ts rfl (unexpandable_of_not_isCommand _ ht)

theorem nextNonSpace?_of_some (x : Expander) (hx : 0 < x.fuel) {t : Token}
    (h : x.next? m = .ok (some t) m') (hspace : t.hasCat .space = false) :
    x.nextNonSpace? m = .ok (some t) m' := by
  obtain ⟨n, hn⟩ := Nat.exists_eq_add_one.mpr hx
  unfold nextNonSpace?
  rw [hn, iterate_of_done]
  rw [bind_of_ok h]
  simp only [hspace]
  rfl

/-! ## Delivered tokens -/

/-- Reads tokens with expansion, as many as there are. -/
def readTokens (x : Expander) : Nat → Eng (List (Option Token))
  | 0 => return []
  | n + 1 => return (← x.next?) :: (← x.readTokens n)

/-- Reading goes from one machine to another by a number of expansions, before any
    token is delivered. -/
inductive Silent (x : Expander) : Nat → Machine → Machine → Prop where
  | refl (m : Machine) : Silent x 0 m m
  | step {n : Nat} {m m' m'' : Machine} (h : x.nextStep () m = .ok (.again ()) m')
      (hrest : Silent x n m' m'') : Silent x (n + 1) m m''

/-- Reading goes from one machine to another and delivers the given tokens; the
    number is that of all expansions. -/
inductive Reads (x : Expander) : Nat → Machine → TokenList → Machine → Prop where
  | nil {n : Nat} {m m' : Machine} (h : Silent x n m m') : Reads x n m [] m'
  | cons {n k : Nat} {m₁ m₂ m₃ m₄ : Machine} {t : Token} {ts : TokenList} (h : Silent x n m₁ m₂)
      (ht : x.nextStep () m₂ = .ok (.done (some t)) m₃) (hrest : Reads x k m₃ ts m₄) :
      Reads x (n + k) m₁ (t :: ts) m₄

variable {x : Expander} {n k : Nat} {m₁ m₂ m₃ : Machine} {ts us : TokenList}

theorem Silent.trans (h : Silent x n m₁ m₂) (h' : Silent x k m₂ m₃) :
    Silent x (n + k) m₁ m₃ := by
  induction h with
  | refl m => rwa [Nat.zero_add]
  | step hstep _ ih =>
    rw [Nat.add_right_comm]
    exact .step hstep (ih h')

theorem Silent.reads (h : Silent x n m₁ m₂) (h' : Reads x k m₂ ts m₃) :
    Reads x (n + k) m₁ ts m₃ := by
  cases h' with
  | nil hend => exact .nil (h.trans hend)
  | cons hend ht hrest =>
    rw [← Nat.add_assoc]
    exact .cons (h.trans hend) ht hrest

theorem Reads.append (h : Reads x n m₁ ts m₂) (h' : Reads x k m₂ us m₃) :
    Reads x (n + k) m₁ (ts ++ us) m₃ := by
  induction h with
  | nil hsilent => exact hsilent.reads h'
  | cons hsilent ht _ ih =>
    rw [Nat.add_assoc, List.cons_append]
    exact .cons hsilent ht (ih h')

theorem Silent.iterate_eq (h : Silent x n m₁ m₂) (r : Nat) :
    iterate x.nextStep (r + n) () m₁ = iterate x.nextStep r () m₂ := by
  induction h with
  | refl m => rfl
  | step hstep _ ih => rw [← Nat.add_assoc, iterate_of_again hstep, ih]

/-- What is delivered step by step is what successive readings give.  The next
    reading goes on with the expansions that are left. -/
theorem Reads.readTokens_eq (h : Reads x n m₁ ts m₂) (hn : n < x.fuel) :
    ∃ m' k, x.readTokens ts.length m₁ = .ok (ts.map some) m' ∧ k ≤ n ∧
      x.next? m' = iterate x.nextStep (x.fuel - k) () m₂ := by
  induction h with
  | @nil n m m' hsilent =>
    refine ⟨m, n, rfl, Nat.le_refl n, ?_⟩
    rw [next?_eq_iterate, ← hsilent.iterate_eq (x.fuel - n), Nat.sub_add_cancel (by omega)]
  | @cons n k m₁ m₂ m₃ m₄ t ts hsilent ht _ ih =>
    obtain ⟨m', j, htokens, hj, hnext⟩ := ih (by omega)
    refine ⟨m', j, ?_, by omega, hnext⟩
    have hfirst : x.next? m₁ = .ok (some t) m₃ := by
      have hfuel : x.fuel = (x.fuel - n - 1) + 1 + n := by omega
      rw [next?_eq_iterate, hfuel, hsilent.iterate_eq, iterate_of_done ht]
    rw [List.length_cons, readTokens, bind_of_ok hfirst, bind_of_ok htokens]
    rfl

theorem exists_readTokens_congr (h : x.next? m₁ = x.next? m₂) {n : Nat} {ts : List (Option Token)}
    (hread : x.readTokens n m₂ = .ok ts m₃) :
    ∃ m', x.readTokens n m₁ = .ok ts m' ∧ x.next? m' = x.next? m₃ := by
  cases n with
  | zero =>
    obtain ⟨rfl, rfl⟩ : [] = ts ∧ m₂ = m₃ := by
      simpa [readTokens, pure_apply] using hread
    exact ⟨m₁, rfl, h⟩
  | succ n =>
    refine ⟨m₃, ?_, rfl⟩
    rw [← hread]
    show EStateM.bind x.next? _ m₁ = EStateM.bind x.next? _ m₂
    simp only [EStateM.bind, h]

end Expander

end TexEngine
