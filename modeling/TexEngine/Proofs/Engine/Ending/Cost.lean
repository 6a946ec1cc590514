/-
  TexEngine.Proofs.Engine.Ending.Cost

  What a state costs: the weight of its input, and the number of codes and tokens, which
  matters where weights are equal.  Taking a token away makes the cost smaller.

  The exception is the frozen \relax.  A test that is interrupted puts one in front of the
  token that interrupts it, and this may happen again as soon as it has been taken away.
  Therefore every state is given credit for one frozen \relax, unless one stands in front
  of everything that can be expanded: neither putting it there nor taking it away changes
  the cost.  Characters in front of it do not count, since a scanner that is looking for a
  keyword puts back the characters that it has read in the meantime.
-/
import TexEngine.Proofs.Engine.Ending.Basic
import TexEngine.Proofs.Input.Reads

namespace TexEngine

open Eng

/-! ## Costs -/

/-- The credit that is left with tokens in front of the input: none, if the frozen \relax
    is the first one of them that is no character. -/
def TokenList.credit : TokenList → Nat
  | [] => 1
  | t :: ts => if t = .frozenRelax then 0 else if t.isCommand then 1 else credit ts

@[simp] theorem TokenList.credit_frozenRelax (ts : TokenList) :
    TokenList.credit (.frozenRelax :: ts) = 0 := rfl

theorem TokenList.credit_command {t : Token} (h : t.isCommand = true) (ht : t ≠ .frozenRelax)
    (ts : TokenList) : TokenList.credit (t :: ts) = 1 := by
  rw [credit, if_neg ht, if_pos h]

theorem TokenList.credit_char {t : Token} (h : t.isCommand = false) (ts : TokenList) :
    TokenList.credit (t :: ts) = ts.credit := by
  have ht : t ≠ .frozenRelax := by
    rintro rfl
    contradiction
  rw [credit, if_neg ht, if_neg (by simp [h])]

theorem TokenList.credit_le (ts : TokenList) : ts.credit ≤ 1 := by
  induction ts with
  | nil => exact Nat.le_refl 1
  | cons t ts ih =>
    unfold credit
    split
    · exact Nat.zero_le 1
    · split
      · exact Nat.le_refl 1
      · exact ih

namespace Machine

variable {m m' m'' : Machine} {t : Token}

/-- The tokens that were put back last and have not been read again. -/
def waiting (m : Machine) : TokenList :=
  (m.input.streams.head?.map Stream.pushed).getD []

/-- The credit for a frozen \relax in front of the input. -/
def credit (m : Machine) : Nat :=
  m.waiting.credit

/-- The weight of the input alone. -/
def burden (m : Machine) : Nat :=
  Gauge.weight.source m.input

/-- The number of codes and tokens in the input. -/
def bulk (m : Machine) : Nat :=
  Gauge.count.source m.input

/-- The weight of the input and of the credit. -/
def weight (m : Machine) : Nat :=
  m.burden + 16 * m.credit

/-- The number of codes and tokens in the input, with the credit. -/
def size (m : Machine) : Nat :=
  m.bulk + m.credit

/-- The weight, and the size, which matters where weights are equal. -/
def cost (m : Machine) : ℕ ×ₗ ℕ :=
  toLex (m.weight, m.size)

theorem credit_le (m : Machine) : m.credit ≤ 1 :=
  m.waiting.credit_le

theorem cost_le_iff :
    m'.cost ≤ m.cost ↔ m'.weight < m.weight ∨ m'.weight = m.weight ∧ m'.size ≤ m.size :=
  Prod.Lex.toLex_le_toLex

theorem cost_lt_iff :
    m'.cost < m.cost ↔ m'.weight < m.weight ∨ m'.weight = m.weight ∧ m'.size < m.size :=
  Prod.Lex.toLex_lt_toLex

theorem weight_le_of_cost_le (h : m'.cost ≤ m.cost) : m'.weight ≤ m.weight := by
  rw [cost_le_iff] at h
  omega

theorem cost_lt_of_weight_lt (h : m'.weight < m.weight) : m'.cost < m.cost :=
  cost_lt_iff.mpr (.inl h)

/-- The cost depends on the input only. -/
theorem cost_congr (h : m'.input = m.input) : m'.cost = m.cost := by
  unfold cost weight size burden bulk credit waiting
  rw [h]

/-! ## Tokens in front -/

theorem waiting_feed (m : Machine) (ts : TokenList) :
    (m.feed ts).waiting = ts ++ m.waiting := by
  unfold waiting feed Source.feed
  split
  · rename_i hstreams
    simp [hstreams]
  · rename_i s rest hstreams
    simp [hstreams]

theorem credit_feed (m : Machine) (ts : TokenList) :
    (m.feed ts).credit = TokenList.credit (ts ++ m.waiting) := by
  rw [credit, waiting_feed]

@[simp] theorem credit_feed_frozenRelax (m : Machine) (ts : TokenList) :
    (m.feed (.frozenRelax :: ts)).credit = 0 := by
  rw [credit_feed, List.cons_append, TokenList.credit_frozenRelax]

theorem source_feed (g : Gauge) (src : Source) (ts : TokenList) :
    g.source (src.feed ts) = g.tokens ts + g.source src := by
  unfold Source.feed Gauge.source
  split
  · rename_i hstreams
    simp [hstreams, Gauge.stream]
  · rename_i s rest hstreams
    simp only [hstreams, List.map_cons, List.sum_cons, Gauge.stream, Gauge.tokens_append]
    omega

@[simp] theorem burden_feed (m : Machine) (ts : TokenList) :
    (m.feed ts).burden = Gauge.weight.tokens ts + m.burden :=
  source_feed ..

@[simp] theorem bulk_feed (m : Machine) (ts : TokenList) :
    (m.feed ts).bulk = ts.length + m.bulk := by
  have hcount : ∀ ts : TokenList, Gauge.count.tokens ts = ts.length := by
    intro ts
    induction ts with
    | nil => rfl
    | cons t ts ih =>
      rw [Gauge.tokens_cons, ih, List.length_cons, Nat.add_comm]
      rfl
  rw [← hcount]
  exact source_feed ..

theorem weight_feed (m : Machine) (ts : TokenList) :
    (m.feed ts).weight = Gauge.weight.tokens ts + m.burden + 16 * (m.feed ts).credit := by
  rw [weight, burden_feed]

theorem size_feed (m : Machine) (ts : TokenList) :
    (m.feed ts).size = ts.length + m.bulk + (m.feed ts).credit := by
  rw [size, bulk_feed]

/-- Characters add what they weigh. -/
theorem weight_feed_char (m : Machine) {t : Token} (ht : t.isCommand = false) :
    (m.feed [t]).weight = Gauge.weight.token t + m.weight := by
  rw [weight_feed, credit_feed, List.singleton_append, TokenList.credit_char ht,
    Gauge.tokens_cons, Gauge.tokens_nil, weight, credit]
  omega

theorem size_feed_char (m : Machine) {t : Token} (ht : t.isCommand = false) :
    (m.feed [t]).size = 1 + m.size := by
  rw [size_feed, credit_feed, List.singleton_append, TokenList.credit_char ht,
    List.length_singleton, size, credit]
  omega

theorem weight_feed_command (m : Machine) {t : Token} (h : t.isCommand = true)
    (ht : t ≠ .frozenRelax) :
    (m.feed [t]).weight = Gauge.weight.token t + m.burden + 16 := by
  rw [weight_feed, credit_feed, List.singleton_append, TokenList.credit_command h ht,
    Gauge.tokens_cons, Gauge.tokens_nil]
  omega

theorem size_feed_command (m : Machine) {t : Token} (h : t.isCommand = true)
    (ht : t ≠ .frozenRelax) : (m.feed [t]).size = m.bulk + 2 := by
  rw [size_feed, credit_feed, List.singleton_append, TokenList.credit_command h ht,
    List.length_singleton]
  omega

theorem weight_feed_frozenRelax (m : Machine) :
    (m.feed [.frozenRelax]).weight = 16 + m.burden := by
  rw [weight_feed, credit_feed_frozenRelax, Gauge.tokens_cons, Gauge.tokens_nil,
    Gauge.weight_frozenRelax]
  omega

theorem size_feed_frozenRelax (m : Machine) : (m.feed [.frozenRelax]).size = m.bulk + 1 := by
  rw [size_feed, credit_feed_frozenRelax, List.length_singleton]
  omega

theorem cost_lt_feed (m : Machine) {t : Token} (ht : t ≠ .frozenRelax) :
    m.cost < (m.feed [t]).cost := by
  have hcredit := m.credit_le
  rw [cost_lt_iff]
  cases hcommand : t.isCommand with
  | true =>
    rw [weight_feed_command m hcommand ht, size_feed_command m hcommand ht, weight, size]
    omega
  | false =>
    rw [weight_feed_char m hcommand, size_feed_char m hcommand]
    omega

/-- A token in front costs something, unless it is the frozen \relax. -/
theorem cost_le_feed (m : Machine) (t : Token) : m.cost ≤ (m.feed [t]).cost := by
  by_cases ht : t = .frozenRelax
  · have hcredit := m.credit_le
    rw [ht, cost_le_iff, weight_feed_frozenRelax, size_feed_frozenRelax, weight, size]
    omega
  · exact (cost_lt_feed m ht).le

/-- Characters in front change all costs in the same way. -/
theorem cost_feed_char_le {t : Token} (ht : t.isCommand = false) (h : m'.cost ≤ m.cost) :
    (m'.feed [t]).cost ≤ (m.feed [t]).cost := by
  rw [cost_le_iff] at h ⊢
  rw [weight_feed_char m ht, weight_feed_char m' ht, size_feed_char m ht, size_feed_char m' ht]
  omega

theorem cost_feed_nil (m : Machine) : (m.feed []).cost = m.cost := by
  have hcredit : (m.feed []).credit = m.credit := credit_feed m []
  have hweight : (m.feed []).weight = m.weight := by
    rw [weight_feed, hcredit, Gauge.tokens_nil, Nat.zero_add, weight]
  have hsize : (m.feed []).size = m.size := by
    rw [size_feed, hcredit, List.length_nil, Nat.zero_add, size]
  rw [cost, hweight, hsize, cost]

theorem cost_le_feed_all (m : Machine) (ts : TokenList) : m.cost ≤ (m.feed ts).cost := by
  induction ts with
  | nil => exact (cost_feed_nil m).ge
  | cons t ts ih =>
    have hle := cost_le_feed (m.feed ts) t
    rw [feed_feed] at hle
    exact ih.trans hle

theorem cost_feed_chars_le {ts : TokenList} (hts : ∀ t ∈ ts, t.isCommand = false)
    (h : m'.cost ≤ m.cost) : (m'.feed ts).cost ≤ (m.feed ts).cost := by
  induction ts with
  | nil => rwa [cost_feed_nil, cost_feed_nil]
  | cons t ts ih =>
    have hle := cost_feed_char_le (hts t List.mem_cons_self)
      (ih fun u hu => hts u (List.mem_cons_of_mem t hu))
    rwa [feed_feed, feed_feed] at hle

/-- The cost, where used-up credit counts as well.  This is smaller behind the frozen
    \relax than in front of it. -/
def span (m : Machine) : ℕ ×ₗ ℕ :=
  toLex (m.weight, 2 * m.size + (1 - m.credit))

theorem span_congr (h : m'.input = m.input) : m'.span = m.span := by
  unfold span weight size burden bulk credit waiting
  rw [h]

theorem weight_le_of_span_le (h : m'.span ≤ m.span) : m'.weight ≤ m.weight := by
  rcases Prod.Lex.toLex_le_toLex.mp h with hlt | ⟨heq, -⟩
  · exact hlt.le
  · exact heq.le

theorem span_lt_iff : m'.span < m.span ↔ m'.weight < m.weight ∨ m'.weight = m.weight ∧
    2 * m'.size + (1 - m'.credit) < 2 * m.size + (1 - m.credit) :=
  Prod.Lex.toLex_lt_toLex

theorem span_lt_of_cost_lt (h : m'.cost < m.cost) : m'.span < m.span := by
  have hcredit := m.credit_le
  have hcredit' := m'.credit_le
  rw [cost_lt_iff] at h
  rw [span_lt_iff]
  omega

theorem span_lt_of_credit_eq (h : (m'.feed [.frozenRelax]).cost ≤ m.cost) (hm : m.credit = 0) :
    m'.span < m.span := by
  have hcredit' := m'.credit_le
  rw [cost_le_iff, weight_feed_frozenRelax, size_feed_frozenRelax] at h
  rw [span_lt_iff]
  unfold weight size at h ⊢
  omega

/-! ## Taking tokens away -/

/-- A token has been taken from the input. -/
structure Takes (m : Machine) (t : Token) (m' : Machine) : Prop where
  env : m'.env = m.env
  job : m'.jobName = m.jobName
  burden : Gauge.weight.token t + m'.burden ≤ m.burden
  bulk : 1 + m'.bulk ≤ m.bulk
  credit : (m'.feed [t]).credit ≤ m.credit

namespace Takes

variable (h : m.Takes t m')
include h

theorem keeps (hm : m.Pristine) : m.Keeps m' :=
  .of_env hm h.env h.job

/-- The token can be put back. -/
theorem cost_feed_le : (m'.feed [t]).cost ≤ m.cost := by
  have hburden := h.burden
  have hbulk := h.bulk
  have hcredit := h.credit
  rw [cost_le_iff, weight_feed, size_feed, Gauge.tokens_cons, Gauge.tokens_nil,
    List.length_singleton, weight, size]
  omega

theorem cost_le : m'.cost ≤ m.cost :=
  (cost_le_feed m' t).trans h.cost_feed_le

/-- A frozen \relax that does not stand in front has its own weight. -/
theorem weight_lt_of_frozenRelax (ht : t = .frozenRelax) :
    m.credit = 0 ∨ m'.weight < m.weight := by
  have hburden := h.burden
  have hle := m.credit_le
  have hle' := m'.credit_le
  rw [ht, Gauge.weight_frozenRelax] at hburden
  by_cases hfront : m.credit = 0
  · exact .inl hfront
  · right
    unfold weight
    omega

theorem span_lt : m'.span < m.span := by
  by_cases ht : t = .frozenRelax
  · rcases h.weight_lt_of_frozenRelax ht with hfront | hlt
    · exact span_lt_of_credit_eq (ht ▸ h.cost_feed_le) hfront
    · exact span_lt_iff.mpr (.inl hlt)
  · exact span_lt_of_cost_lt ((cost_lt_feed m' ht).trans_le h.cost_feed_le)

/-- In front of a command that is not the frozen \relax, there is credit. -/
theorem credit_eq (hcommand : t.isCommand = true) (ht : t ≠ .frozenRelax) : m.credit = 1 := by
  have hcredit := h.credit
  have hle := m.credit_le
  rw [credit_feed, List.singleton_append, TokenList.credit_command hcommand ht] at hcredit
  omega

end Takes

end Machine

/-! ## Reading -/

namespace Eng

variable {m : Machine}

/-- Lines fail because of a character, and readers because they cannot be read. -/
theorem ne_outOfFuel_of_reads {lex : Lexicon} {s s' : Stream} {result : StreamResult}
    (h : s.Reads lex result s') : result ≠ .fault .outOfFuel := by
  have hresult : ∀ x : Lexeme, Stream.resultOf (some x) ≠ .fault .outOfFuel := by
    intro x
    cases x <;> simp [Stream.resultOf]
  cases h with
  | sameLine => exact hresult _
  | laterLine => exact hresult _
  | exhausted | failed => simp

theorem nextFrom_ne_outOfFuel (lex : Lexicon) (src : Source) (closed : List StreamId)
    (streams : List Stream) :
    (src.nextFrom lex closed streams).result ≠ .error .outOfFuel := by
  fun_induction Source.nextFrom lex src closed streams with
  | case1 closed => simp
  | case2 closed s rest t ts hpushed => simp
  | case3 closed s rest hpushed t s' hs => simp
  | case4 closed s rest hpushed f s' hs src' =>
    have hs' := ne_outOfFuel_of_reads (Stream.reads_of_read hs)
    cases f <;> simp_all [Source.annotate]
  | case5 closed s rest hpushed s' hs ih => exact ih

/-- What was put back last is read next. -/
theorem next_of_waiting {t : Token} {ts : TokenList} (h : m.waiting = t :: ts) :
    (m.input.next m.env.lexicon).result = .ok (some t) ∧
      ((m.input.next m.env.lexicon).source.streams.head?.map Stream.pushed).getD [] = ts := by
  unfold Machine.waiting at h
  unfold Source.next
  cases hstreams : m.input.streams with
  | nil => simp [hstreams] at h
  | cons s rest =>
    simp only [hstreams, List.head?_cons, Option.map_some, Option.getD_some] at h
    rw [Source.nextFrom, h]
    exact ⟨rfl, rfl⟩

/-- Reading does not use up credit that is needed to put the token back. -/
theorem credit_le_of_next {t : Token}
    (hnext : (m.input.next m.env.lexicon).result = .ok (some t)) :
    TokenList.credit
      (t :: ((m.input.next m.env.lexicon).source.streams.head?.map Stream.pushed).getD []) ≤
        m.credit := by
  unfold Machine.credit
  cases hwaiting : m.waiting with
  | nil => exact TokenList.credit_le _
  | cons u us =>
    obtain ⟨hresult, hrest⟩ := next_of_waiting hwaiting
    rw [hresult] at hnext
    injection hnext with hu
    injection hu with hu
    rw [hrest, hu]

theorem waiting_of_next_none (hnext : (m.input.next m.env.lexicon).result = .ok none) :
    m.waiting = [] := by
  cases hwaiting : m.waiting with
  | nil => rfl
  | cons t ts =>
    rw [(next_of_waiting hwaiting).1] at hnext
    injection hnext with hnext
    contradiction

/-- What reading a token does. -/
theorem rawToken_cases (hm : m.Pristine) :
    (∃ m', rawToken m = .ok none m' ∧ m'.env = m.env ∧ m'.jobName = m.jobName ∧
        m'.cost ≤ m.cost) ∨
      (∃ t m', rawToken m = .ok (some t) m' ∧ m.Takes t m') ∨
      ∃ f m', rawToken m = .error f m' ∧ f ≠ .outOfFuel := by
  rw [rawToken_apply]
  dsimp only
  -- What is known of the reading is said of the result as a whole, so that it can be split up.
  have hweight := fun t? => (Gauge.weight_fits hm.env.lexicon).next_le m.input t?
  have hcount := fun t? => (Gauge.count_fits m.env.lexicon).next_le m.input t?
  have hfault := nextFrom_ne_outOfFuel m.env.lexicon m.input [] m.input.streams
  have hcredit := fun t => credit_le_of_next (m := m) (t := t)
  have hempty : (m.input.next m.env.lexicon).result = .ok none →
      m.waiting = [] ∧ (m.input.next m.env.lexicon).source.streams = [] := by
    intro h
    refine ⟨waiting_of_next_none h, ?_⟩
    rw [Source.next] at h ⊢
    rw [Source.source_nextFrom_of_none h]
  rw [← Source.next] at hfault
  generalize m.input.next m.env.lexicon = r at hweight hcount hfault hcredit hempty
  obtain ⟨result, source, closed⟩ := r
  cases result with
  | error f => exact .inr (.inr ⟨f, _, rfl, fun hf => hfault (by rw [hf])⟩)
  | ok t? =>
    cases t? with
    | none =>
      refine .inl ⟨_, rfl, rfl, rfl, ?_⟩
      obtain ⟨hwaiting, hstreams⟩ := hempty rfl
      have hstreams : source.streams = [] := hstreams
      -- Where the input has ended, no stream is left, and nothing waits in front of it.
      rw [Machine.cost_le_iff]
      simp only [Machine.weight, Machine.size, Machine.burden, Machine.bulk, Machine.credit,
        hwaiting, Machine.note, Gauge.source, hstreams, List.map_nil, List.sum_nil]
      simp only [Machine.waiting, hstreams, List.head?_nil, Option.map_none, Option.getD_none]
      omega
    | some t =>
      refine .inr (.inl ⟨t, _, rfl, rfl, rfl, hweight _ rfl, hcount _ rfl, ?_⟩)
      rw [Machine.credit_feed]
      exact hcredit t rfl

/-- Reading takes the mark away. -/
theorem token?_of_rawToken {t? : Option Token} {m' : Machine} (h : rawToken m = .ok t? m') :
    token? m =
      .ok t? { m' with marked := none, frozen := m'.marked.isSome && m'.marked == t? } := by
  unfold token?
  rw [h]

theorem token?_cases (hm : m.Pristine) :
    (∃ m', token? m = .ok none m' ∧ m.Keeps m' ∧ m'.cost ≤ m.cost) ∨
      (∃ t m', token? m = .ok (some t) m' ∧ m'.marked = none ∧ m.Takes t m') ∨
      ∃ f m', token? m = .error f m' ∧ f ≠ .outOfFuel := by
  rcases rawToken_cases hm with ⟨m', hraw, henv, hjob, hcost⟩ | ⟨t, m', hraw, htakes⟩ |
    ⟨f, m', hraw, hf⟩
  · exact .inl ⟨_, token?_of_rawToken hraw, .of_env hm henv hjob, hcost⟩
  · refine .inr (.inl ⟨t, _, token?_of_rawToken hraw, rfl, ?_⟩)
    exact ⟨htakes.env, htakes.job, htakes.burden, htakes.bulk, htakes.credit⟩
  · exact .inr (.inr ⟨f, _, by unfold token?; rw [hraw], hf⟩)

end Eng

/-! ## Rules -/

namespace Halts

variable {α β : Type} {A B : Nat → Eng α} {m : Machine} {Q : α → Machine → Prop}
  {R : β → Machine → Prop}

theorem fail (kind : ErrorKind) (details : List String) :
    Halts (fun _ => Eng.fail kind details) (fun _ => Eng.fail kind details) m Q :=
  .error rfl (by simp)

theorem failAt (kind : ErrorKind) (t : Token) (details : List String) :
    Halts (fun _ => Eng.failAt kind t details) (fun _ => Eng.failAt kind t details) m Q :=
  .error rfl (by simp)

theorem failHere (kind : ErrorKind) (details : List String) :
    Halts (fun _ => Eng.failHere kind details) (fun _ => Eng.failHere kind details) m Q :=
  .error rfl (by simp [Source.annotate])

/-- A sequence that fails at its beginning. -/
theorem error_bind {act : Eng α} {f : Fault} {m' : Machine} {F G : Nat → α → Eng β}
    (hact : act m = .error f m') (hf : f ≠ .outOfFuel) :
    Halts (fun n => act >>= F n) (fun n => act >>= G n) m R := by
  intro _
  refine .stopped 0 fun n _ => ?_
  rw [bind_of_error hact, bind_of_error hact]
  exact .error hf m'

/-- Reading a token as it stands in the input. -/
theorem raw {F G : Nat → Option Token → Eng β}
    (hnone : ∀ m', m'.cost ≤ m.cost → Halts (F · none) (G · none) m' R)
    (hsome : ∀ t m', m.Takes t m' → Halts (F · (some t)) (G · (some t)) m' R) :
    Halts (fun n => rawToken >>= F n) (fun n => rawToken >>= G n) m R := by
  refine of_pristine fun hm => ?_
  rcases rawToken_cases hm with ⟨m', hraw, henv, hjob, hcost⟩ | ⟨t, m', hraw, htakes⟩ |
    ⟨f, m', hraw, hf⟩
  · exact .step hraw (fun hm => .of_env hm henv hjob) (hnone m' hcost)
  · exact .step hraw htakes.keeps (hsome t m' htakes)
  · exact .error_bind hraw hf

/-- Reading a token that may be marked. -/
theorem token {F G : Nat → Option Token → Eng β}
    (hnone : ∀ m', m'.cost ≤ m.cost → Halts (F · none) (G · none) m' R)
    (hsome : ∀ t m', m'.marked = none → m.Takes t m' → Halts (F · (some t)) (G · (some t)) m' R) :
    Halts (fun n => token? >>= F n) (fun n => token? >>= G n) m R := by
  refine of_pristine fun hm => ?_
  rcases token?_cases hm with ⟨m', htoken, hkeeps, hcost⟩ | ⟨t, m', htoken, hmarked, htakes⟩ |
    ⟨f, m', htoken, hf⟩
  · exact .step htoken (fun _ => hkeeps) (hnone m' hcost)
  · exact .step htoken htakes.keeps (hsome t m' hmarked htakes)
  · exact .error_bind htoken hf

/-- A token that has to be there. -/
theorem expect {t? : Option Token} {kind : ErrorKind} {details : List String}
    {F G : Nat → Token → Eng β}
    (hsome : ∀ t, t? = some t → Halts (F · t) (G · t) m R) :
    Halts (fun n => Eng.expect t? kind details >>= F n)
      (fun n => Eng.expect t? kind details >>= G n) m R := by
  cases t? with
  | none => exact .error_bind rfl (by simp [Source.annotate])
  | some t => exact .look rfl (hsome t rfl)

/-- Putting tokens back. -/
theorem push {ts : TokenList} (hts : ts ≠ []) {F G : Nat → Unit → Eng β}
    (h : Halts (F · ()) (G · ()) (m.feed ts) R) :
    Halts (fun n => Eng.push ts >>= F n) (fun n => Eng.push ts >>= G n) m R :=
  .step (push_apply m hts) (fun hm => .of_env hm rfl rfl) h

/-- Putting tokens back, if there are any. -/
theorem push_any {ts : TokenList} {F G : Nat → Unit → Eng β}
    (h : ∀ m', m'.cost = (m.feed ts).cost → Halts (F · ()) (G · ()) m' R) :
    Halts (fun n => Eng.push ts >>= F n) (fun n => Eng.push ts >>= G n) m R := by
  cases ts with
  | nil => exact .look rfl (h m (Machine.cost_feed_nil m).symm)
  | cons t ts => exact .push (by simp) (h _ rfl)

/-- Putting any tokens back at the end. -/
theorem push_end {ts : TokenList} {Q : Unit → Machine → Prop}
    (h : ∀ m', m'.cost = (m.feed ts).cost → Q () m') :
    Halts (fun _ => Eng.push ts) (fun _ => Eng.push ts) m Q := by
  have hpush : Halts (fun _ => Eng.push ts >>= fun _ => Pure.pure ())
      (fun _ => Eng.push ts >>= fun _ => Pure.pure ()) m Q :=
    .push_any fun m' hm' => .pure (h m' hm')
  simpa only [bind_pure_unit] using hpush

/-- Putting tokens back at the end. -/
theorem push_last {ts : TokenList} (hts : ts ≠ []) {Q : Unit → Machine → Prop}
    (h : Q () (m.feed ts)) : Halts (fun _ => Eng.push ts) (fun _ => Eng.push ts) m Q :=
  .ok (push_apply m hts) (fun hm => .of_env hm rfl rfl) h

end Halts

end TexEngine
