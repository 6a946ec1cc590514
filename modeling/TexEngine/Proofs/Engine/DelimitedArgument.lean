/-
  TexEngine.Proofs.Engine.DelimitedArgument

  Where a delimited argument ends.  The delimiters are looked for by comparing the tokens
  read last with them, and a counter keeps the comparison from reaching back behind a brace
  that was closed.  `DelimitedAt` says what is meant: in a list of tokens, the delimiters
  stand at an index, behind a balanced list.

  `Delimited.Scanned` is the invariant of the loop, and `completes_iff` the reason why it
  finds the delimiters where they stand first: a comparison succeeds at a token exactly if
  the delimiters end there and stand behind a balanced list.
-/
import TexEngine.Proofs.Engine.Braces
import TexEngine.Proofs.Engine.MacroCall
import TexEngine.Proofs.Engine.Upcoming

namespace TexEngine

open Eng

/-! ## Groups -/

/-- A balanced list loses braces exactly if it is a balanced list in braces. -/
theorem Balanced.isSingleGroup_iff {ts : TokenList} (h : Balanced ts) :
    isSingleGroup ts = true ↔ ∃ g : Braced, ts = g.tokens := by
  constructor
  · intro hsingle
    cases h with
    | nil => contradiction
    | token hopen hclose h =>
      simp [isSingleGroup, hopen] at hsingle
    | @group left right us vs hus hvs =>
      -- The group closes in front of `vs`, so braces stay open only if nothing follows.
      have hopen : staysOpen 0 (.char left .beginGroup :: (us ++ .char right .endGroup :: vs)) =
          staysOpen (0 + 1 : Nat) (us ++ .char right .endGroup :: vs) := rfl
      have hstays : staysOpen (0 + 1 : Nat) (.char right .endGroup :: vs) = true := by
        rw [← hus.staysOpen_append, ← hopen]
        simp only [isSingleGroup, Bool.and_eq_true] at hsingle
        exact hsingle.2
      have hvs : vs = [] := by
        cases vs with
        | nil => rfl
        | cons v vs => simp [staysOpen, Token.hasCat] at hstays
      exact ⟨⟨left, right, us, hus⟩, by rw [hvs]; rfl⟩
  · rintro ⟨g, rfl⟩
    cases hsingle : isSingleGroup g.tokens with
    | true => rfl
    | false =>
      have hstrip := g.stripGroup_tokens
      rw [stripGroup, if_neg (by rw [hsingle]; decide)] at hstrip
      have hlength := congrArg List.length hstrip
      simp [Braced.tokens] at hlength
      omega

theorem Balanced.stripGroup_of_forall_ne {ts : TokenList} (h : Balanced ts)
    (hne : ∀ g : Braced, ts ≠ g.tokens) : stripGroup ts = ts := by
  rw [stripGroup, if_neg]
  intro hsingle
  obtain ⟨g, hg⟩ := h.isSingleGroup_iff.mp hsingle
  exact hne g hg

/-! ## Where delimiters stand -/

/-- The delimiters stand at the index, behind a balanced list. -/
def DelimitedAt (delims ts : TokenList) (k : Nat) : Prop :=
  Balanced (ts.take k) ∧ delims <+: ts.drop k

instance (delims ts : TokenList) (k : Nat) : Decidable (DelimitedAt delims ts k) :=
  decidable_of_iff (braceDepthAfter? 0 (ts.take k) = some 0 ∧ delims <+: ts.drop k) <| by
    rw [← balanced_iff_braceDepthAfter?]
    exact Iff.rfl

namespace DelimitedAt

variable {delims ts us : TokenList} {k : Nat}

theorem length_le (hne : delims ≠ []) (h : DelimitedAt delims ts k) :
    k + delims.length ≤ ts.length := by
  have hpos : 0 < delims.length := List.length_pos_iff.mpr hne
  have hle := h.2.length_le
  rw [List.length_drop] at hle
  omega

/-- The tokens behind the delimiters do not matter. -/
theorem append (hne : delims ≠ []) (h : DelimitedAt delims ts k) (us : TokenList) :
    DelimitedAt delims (ts ++ us) k := by
  have hk : k ≤ ts.length := by
    have := h.length_le hne
    omega
  constructor
  · rw [List.take_append_of_le_length hk]
    exact h.1
  · rw [List.drop_append_of_le_length hk]
    exact h.2.trans (List.prefix_append ..)

theorem of_balanced {arg : TokenList} (harg : Balanced arg) (delims rest : TokenList) :
    DelimitedAt delims (arg ++ (delims ++ rest)) arg.length := by
  constructor
  · rwa [List.take_left]
  · rw [List.drop_left]
    exact List.prefix_append ..

/-- The list up to the end of the delimiters. -/
theorem take_eq (h : DelimitedAt delims ts k) :
    ts.take (k + delims.length) = ts.take k ++ delims := by
  rw [List.take_add, ← List.prefix_iff_eq_take.mp h.2]

/-- In front of the last one of the first delimiters, there are none. -/
theorem not_before {ds : TokenList} {l : Token} (h : DelimitedAt (ds ++ [l]) ts k)
    (hfirst : ∀ j < k, ¬ DelimitedAt (ds ++ [l]) ts j) (j : Nat) :
    ¬ DelimitedAt (ds ++ [l]) (ts.take k ++ ds) j := by
  intro hj
  have hne : ds ++ [l] ≠ [] := by simp
  have hlist : ts = ts.take k ++ ds ++ (l :: ts.drop (k + (ds ++ [l]).length)) := by
    rw [List.append_assoc, List.append_cons, ← List.append_assoc, ← h.take_eq,
      List.take_append_drop]
  -- They would stand in the whole list, and further in front.
  have hlength := hj.length_le hne
  simp only [List.length_append, List.length_take, List.length_singleton] at hlength
  refine hfirst j (by omega) ?_
  rw [hlist]
  exact hj.append hne _

end DelimitedAt

/-- Behind a list that can be read, a brace is closed that is not open: a balanced list
    stands in front of it. -/
theorem exists_unmatched {us ts : TokenList} {depth : Nat}
    (hus : braceDepthAfter? 0 us = some depth) (h : braceDepthAfter? depth ts = none) :
    ∃ vs c rest, us ++ ts = vs ++ .char c .endGroup :: rest ∧ Balanced vs := by
  induction ts generalizing us depth with
  | nil => contradiction
  | cons t ts ih =>
    rw [braceDepthAfter?_cons] at h
    cases hfirst : braceDepth? depth t with
    | none =>
      obtain ⟨c, rfl⟩ : ∃ c, t = .char c .endGroup := by
        rcases braceDepth?_cases t with ⟨c, rfl⟩ | hclose | ⟨hopen, hclose⟩
        · contradiction
        · exact hclose
        · rw [braceDepth?_of_not_brace hopen hclose] at hfirst
          contradiction
      exact ⟨us, c, ts, rfl, balanced_of_braceDepth?_none hus hfirst⟩
    | some depth₁ =>
      rw [hfirst, Option.bind_some] at h
      have hread : braceDepthAfter? 0 (us ++ [t]) = some depth₁ := by
        rw [braceDepthAfter?_append, hus, Option.bind_some, braceDepthAfter?_cons, hfirst]
        rfl
      obtain ⟨vs, c, rest, hlist, hvs⟩ := ih hread h
      rw [List.append_assoc] at hlist
      exact ⟨vs, c, rest, hlist, hvs⟩

/-! ## What the loop has read -/

theorem braceDepthAfter?_of_not_brace {ts : TokenList}
    (h : ∀ t ∈ ts, t.hasCat .beginGroup = false ∧ t.hasCat .endGroup = false) (depth : Nat) :
    braceDepthAfter? depth ts = some depth :=
  (balanced_of_not_brace h).braceDepthAfter? depth

theorem PatternBraces.dropLast {delims : TokenList} {l : Token}
    (h : PatternBraces (delims ++ [l])) :
    ∀ t ∈ delims, t.hasCat .beginGroup = false ∧ t.hasCat .endGroup = false :=
  fun t ht => ⟨h.not_open t ht, h.no_close t (List.mem_append_left _ ht)⟩

namespace MacroDef

/-- The loop has read `us` and then `ws`, which are the tokens that it has counted; in front
    of them stands the brace that closed all others. -/
structure Delimited.Scanned (us ws : TokenList) (a : Delimited) : Prop where
  seen : a.seen = (us ++ ws).reverse
  since : a.since = ws.length
  depth : braceDepthAfter? 0 (us ++ ws) = some a.depth
  closed : us = [] ∨ ∃ vs c, us = vs ++ [.char c .endGroup]

variable {d : MacroDef} {t l : Token} {ds delims us ws : TokenList} {a : Delimited}

theorem Delimited.Scanned.start : Delimited.Scanned [] [] {} :=
  ⟨rfl, rfl, rfl, .inl rfl⟩

/-- The counter lets the delimiters reach back as far as they can without a closing brace. -/
theorem Delimited.Scanned.length_le (h : a.Scanned us ws) {arg : TokenList}
    (hds : ∀ t ∈ ds, t.hasCat .endGroup = false) (hread : us ++ ws = arg ++ ds) :
    ds.length ≤ a.since := by
  rw [h.since]
  rcases h.closed with rfl | ⟨vs, c, rfl⟩
  · have hlength := congrArg List.length hread
    simp only [List.nil_append, List.length_append] at hlength
    omega
  · apply Nat.le_of_not_lt
    intro hlt
    -- The closing brace would be one of the delimiters.
    have hsuffix : .char c .endGroup :: ws <:+ ds := by
      have hread' : vs ++ .char c .endGroup :: ws = arg ++ ds := by
        rw [← hread]
        simp
      refine List.suffix_of_suffix_length_le ⟨vs, hread'⟩ ⟨arg, rfl⟩ ?_
      rw [List.length_cons]
      omega
    have hfalse := hds _ (hsuffix.subset List.mem_cons_self)
    contradiction

/-- A token completes the delimiters exactly if it is the last one of them and the others
    have been read right behind a balanced list. -/
theorem completes_iff (hbraces : PatternBraces (ds ++ [l])) (h : a.Scanned us ws) :
    Completes (ds ++ [l]) t a ↔ t = l ∧ ∃ arg, Balanced arg ∧ us ++ ws = arg ++ ds := by
  have hflat : ∀ u ∈ ds, u.hasCat .beginGroup = false ∧ u.hasCat .endGroup = false :=
    hbraces.dropLast
  -- The tokens seen last are the delimiters exactly if the argument in front of them is balanced,
  -- since the delimiters, as far as they were seen, have no braces.
  constructor
  · rintro ⟨hdepth, -, htake⟩
    rw [h.seen, List.length_append, List.length_singleton, List.take_succ_cons,
      List.reverse_concat] at htake
    injection htake with ht hds
    obtain ⟨arg, harg⟩ : ds <:+ us ++ ws := by
      rw [← List.reverse_prefix, ← hds]
      exact List.take_prefix ..
    refine ⟨ht, arg, ?_, harg.symm⟩
    have hend := h.depth
    rw [← harg, braceDepthAfter?_append, hdepth, Option.bind_eq_some_iff] at hend
    obtain ⟨e, he, hrest⟩ := hend
    rw [braceDepthAfter?_of_not_brace hflat] at hrest
    rw [balanced_iff_braceDepthAfter?, he, hrest]
  · rintro ⟨rfl, arg, harg, hread⟩
    refine ⟨?_, ?_, ?_⟩
    · have hdepth := h.depth
      rw [hread, braceDepthAfter?_append, harg.braceDepthAfter?, Option.bind_some,
        braceDepthAfter?_of_not_brace hflat] at hdepth
      injection hdepth with hdepth
      exact hdepth.symm
    · have hlength := h.length_le (fun u hu => (hflat u hu).2) hread
      simp only [List.length_append, List.length_singleton]
      omega
    · rw [h.seen, hread]
      simp

/-! ## The loop -/

variable {m m₁ m' : Machine}

/-- A token that completes the delimiters ends the loop. -/
theorem delimitedStep_of_completes (call : Token) (h : token? m = .ok (some t) m₁)
    (hacc : d.Accepts m₁.env t)
    (hlast : Completes delims t a) :
    d.delimitedStep call delims a m =
      .ok (.done ((t :: a.seen).drop delims.length).reverse) m₁ := by
  unfold delimitedStep
  rw [bind_of_ok h, bind_of_ok (expect_some ..), bind_of_ok (checkArgument_of_accepts call m₁ hacc)]
  unfold Completes at hlast
  exact congrFun (if_pos hlast) m₁

/-- Any other token is kept, if it closes no brace that is not open. -/
theorem delimitedStep_of_not_completes (call : Token) (h : token? m = .ok (some t) m₁)
    (hacc : d.Accepts m₁.env t) (hearly : ¬ Completes delims t a) :
    d.delimitedStep call delims a m =
      (match braceDepth? a.depth t with
        | none => failAt .extraRightBrace t [call.text]
        | some depth => pure (Step.again (Delimited.mk (t :: a.seen) depth
            (if t.hasCat .endGroup && depth = 0 then 0 else a.since + 1)))) m₁ := by
  unfold delimitedStep
  rw [bind_of_ok h, bind_of_ok (expect_some ..), bind_of_ok (checkArgument_of_accepts call m₁ hacc)]
  unfold Completes at hearly
  exact congrFun (if_neg hearly) m₁

/-- A round that goes on has read one more token. -/
theorem delimitedStep_scanned (call : Token) (hbraces : PatternBraces (ds ++ [l]))
    (h : a.Scanned us ws)
    (ht : token? m = .ok (some t) m₁) (hacc : d.Accepts m₁.env t)
    (hearly : ¬ (t = l ∧ ∃ arg, Balanced arg ∧ us ++ ws = arg ++ ds)) {depth : Nat}
    (hdepth : braceDepth? a.depth t = some depth) :
    ∃ us' ws' a', us' ++ ws' = us ++ ws ++ [t] ∧ a'.Scanned us' ws' ∧ a'.depth = depth ∧
      d.delimitedStep call (ds ++ [l]) a m = .ok (.again a') m₁ := by
  rw [← completes_iff hbraces h] at hearly
  have hstep := delimitedStep_of_not_completes call ht hacc hearly
  rw [hdepth] at hstep
  dsimp only at hstep
  have hafter : braceDepthAfter? 0 (us ++ ws ++ [t]) = some depth := by
    rw [braceDepthAfter?_append, h.depth, Option.bind_some, braceDepthAfter?_cons, hdepth]
    rfl
  have hseen : t :: a.seen = (us ++ ws ++ [t]).reverse := by
    rw [h.seen, List.reverse_concat]
  by_cases hclose : (t.hasCat .endGroup && depth = 0) = true
  · -- The brace closes all others: the counter starts again.
    rw [if_pos hclose] at hstep
    obtain ⟨c, rfl⟩ : ∃ c, t = .char c .endGroup := by
      cases t <;> simp_all [Token.hasCat]
    refine ⟨us ++ ws ++ [.char c .endGroup], [], _, List.append_nil _,
      ⟨?_, rfl, ?_, .inr ⟨us ++ ws, c, rfl⟩⟩, rfl, hstep⟩
    · rw [List.append_nil]
      exact hseen
    · rw [List.append_nil]
      exact hafter
  · rw [if_neg hclose] at hstep
    refine ⟨us, ws ++ [t], _, (List.append_assoc ..).symm, ⟨?_, ?_, ?_, h.closed⟩, rfl, hstep⟩
    · rw [← List.append_assoc]
      exact hseen
    · rw [List.length_append, List.length_singleton, h.since]
    · rw [← List.append_assoc]
      exact hafter

/-- Tokens that do not contain the delimiters behind a balanced list are all read. -/
theorem iterate_delimitedStep_scanned (call : Token) (hbraces : PatternBraces (ds ++ [l]))
    {rs : TokenList}
    (hyields : m.Yields rs m') (hacc : ∀ t ∈ rs, d.Accepts m.env t) (h : a.Scanned us ws)
    {depth : Nat} (hdepth : braceDepthAfter? a.depth rs = some depth)
    (hearly : ∀ k, ¬ DelimitedAt (ds ++ [l]) (us ++ ws ++ rs) k) (n : Nat) :
    ∃ us' ws' a', us' ++ ws' = us ++ ws ++ rs ∧ a'.Scanned us' ws' ∧ a'.depth = depth ∧
      iterate (d.delimitedStep call (ds ++ [l])) (n + rs.length) a m =
        iterate (d.delimitedStep call (ds ++ [l])) n a' m' := by
  -- By induction on what is read: as long as no occurrence of the delimiters ends, each round
  -- keeps the account of what was scanned.
  induction hyields generalizing us ws a with
  | nil m =>
    injection hdepth with hdepth
    exact ⟨us, ws, a, (List.append_nil _).symm, h, hdepth, rfl⟩
  | @cons t rs m m₁ m' ht rest ih =>
    have henv : m₁.env = m.env := Machine.env_of_token? ht
    rw [braceDepthAfter?_cons, Option.bind_eq_some_iff] at hdepth
    obtain ⟨depth₁, hfirst, hrest⟩ := hdepth
    rw [List.forall_mem_cons, ← henv] at hacc
    have hnot : ¬ (t = l ∧ ∃ arg, Balanced arg ∧ us ++ ws = arg ++ ds) := by
      rintro ⟨rfl, arg, harg, hread⟩
      apply hearly arg.length
      have hlist : us ++ ws ++ t :: rs = arg ++ ((ds ++ [t]) ++ rs) := by
        rw [hread]
        simp
      rw [hlist]
      exact .of_balanced harg (ds ++ [t]) rs
    obtain ⟨us₁, ws₁, a₁, hread₁, hscanned₁, hdepth₁, hstep⟩ :=
      delimitedStep_scanned call hbraces h ht hacc.1 hnot hfirst
    have hlist : us₁ ++ ws₁ ++ rs = us ++ ws ++ t :: rs := by
      rw [hread₁]
      simp
    obtain ⟨us', ws', a', hread', hscanned', hdepth', hloop⟩ :=
      ih hacc.2 hscanned₁ (by rwa [hdepth₁]) (by rwa [hlist])
    refine ⟨us', ws', a', hread'.trans hlist, hscanned', hdepth', ?_⟩
    rw [List.length_cons, ← Nat.add_assoc, iterate_of_again hstep, hloop]

/-- Reading an argument, once tokens have been read that do not contain the delimiters. -/
theorem delimitedArgument_of_read (call : Token) (hbraces : PatternBraces (ds ++ [l]))
    {read : TokenList} (hyields : m.Yields read m') (hacc : ∀ t ∈ read, d.Accepts m.env t)
    {depth : Nat} (hdepth : braceDepthAfter? 0 read = some depth)
    (hearly : ∀ k, ¬ DelimitedAt (ds ++ [l]) read k) {fuel : Nat} (hfuel : read.length < fuel) :
    ∃ us ws a n, us ++ ws = read ∧ a.Scanned us ws ∧ a.depth = depth ∧
      delimitedArgument fuel d call (ds ++ [l]) m =
        (iterate (d.delimitedStep call (ds ++ [l])) (n + 1) a >>= fun arg =>
          return stripGroup arg) m' := by
  obtain ⟨n, rfl⟩ : ∃ n, fuel = n + 1 + read.length := ⟨fuel - read.length - 1, by omega⟩
  obtain ⟨us, ws, a, hread, hscanned, hdepth', hloop⟩ :=
    iterate_delimitedStep_scanned call hbraces hyields hacc .start hdepth hearly (n + 1)
  refine ⟨us, ws, a, n, hread, hscanned, hdepth', ?_⟩
  rw [delimitedArgument_eq]
  show EStateM.bind _ _ m = EStateM.bind _ _ m'
  simp only [EStateM.bind, hloop]

/-! ## The argument -/

/-- The argument that is found is the balanced list in front of the delimiters where they
    stand first. -/
theorem delimitedArgument_of_first (call : Token) (hbraces : PatternBraces (ds ++ [l]))
    {arg : TokenList}
    (harg : Balanced arg) (hfirst : ∀ k, ¬ DelimitedAt (ds ++ [l]) (arg ++ ds) k)
    (hyields : m.Yields (arg ++ (ds ++ [l])) m')
    (hacc : ∀ t ∈ arg ++ (ds ++ [l]), d.Accepts m.env t) {fuel : Nat}
    (hfuel : (arg ++ ds).length < fuel) :
    delimitedArgument fuel d call (ds ++ [l]) m = .ok (stripGroup arg) m' := by
  rw [← List.append_assoc] at hyields hacc
  obtain ⟨m₁, hread, hlast⟩ := hyields.exists_of_append
  obtain ⟨m₂, hl, hend⟩ := hlast.exists_of_cons
  obtain rfl : m' = m₂ := by
    cases hend
    rfl
  have hdepth : braceDepthAfter? 0 (arg ++ ds) = some 0 := by
    rw [braceDepthAfter?_append, harg.braceDepthAfter?]
    exact braceDepthAfter?_of_not_brace hbraces.dropLast 0
  obtain ⟨us, ws, a, n, hus, hscanned, -, hloop⟩ :=
    delimitedArgument_of_read call hbraces hread
      (fun t ht => hacc t (List.mem_append_left _ ht)) hdepth hfirst hfuel
  have hcomplete : Completes (ds ++ [l]) l a :=
    (completes_iff hbraces hscanned).mpr ⟨rfl, arg, harg, hus⟩
  have haccept : d.Accepts m'.env l := by
    rw [Machine.env_of_token? hl, hread.env_eq]
    exact hacc l (by simp)
  have hresult : ((l :: a.seen).drop (ds ++ [l]).length).reverse = arg := by
    rw [hscanned.seen, hus]
    simp
  rw [hloop, bind_of_ok (iterate_of_done (delimitedStep_of_completes call hl haccept hcomplete) n),
    hresult]
  rfl

/-- A brace that closes none that is open ends the search. -/
theorem delimitedArgument_of_unmatched (call : Token) (hbraces : PatternBraces (ds ++ [l]))
    {read : TokenList}
    (hread : Balanced read) (hearly : ∀ k, ¬ DelimitedAt (ds ++ [l]) read k) {c : CharCode}
    (hyields : m.Yields (read ++ [.char c .endGroup]) m')
    (hacc : ∀ t ∈ read, d.Accepts m.env t) {fuel : Nat} (hfuel : read.length < fuel) :
    delimitedArgument fuel d call (ds ++ [l]) m =
      .error (.tex { kind := .extraRightBrace, details := [call.text],
                     token := some (.char c .endGroup) }) m' := by
  obtain ⟨m₁, hbefore, hlast⟩ := hyields.exists_of_append
  obtain ⟨m₂, hclose, hend⟩ := hlast.exists_of_cons
  obtain rfl : m' = m₂ := by
    cases hend
    rfl
  obtain ⟨us, ws, a, n, hus, hscanned, hdepth, hloop⟩ :=
    delimitedArgument_of_read call hbraces hbefore hacc (hread.braceDepthAfter? 0) hearly hfuel
  -- No pattern contains a closing brace.
  have hnot : ¬ Completes (ds ++ [l]) (.char c .endGroup) a := by
    rw [completes_iff hbraces hscanned]
    rintro ⟨rfl, -⟩
    have hfalse := hbraces.no_close (.char c .endGroup) (by simp)
    contradiction
  have hstep := delimitedStep_of_not_completes call hclose
    (d.accepts_of_not_isCommand m'.env rfl) hnot
  rw [hdepth] at hstep
  rw [hloop]
  apply bind_of_error
  rw [iterate, bind_of_error hstep]

/-- Without delimiters, the end of the input ends the search. -/
theorem delimitedArgument_of_end (call : Token) (hbraces : PatternBraces (ds ++ [l]))
    {read : TokenList}
    {depth : Nat} (hdepth : braceDepthAfter? 0 read = some depth)
    (hearly : ∀ k, ¬ DelimitedAt (ds ++ [l]) read k) (hyields : m.Yields read m₁)
    (hend : token? m₁ = .ok none m') (hacc : ∀ t ∈ read, d.Accepts m.env t) {fuel : Nat}
    (hfuel : read.length < fuel) :
    delimitedArgument fuel d call (ds ++ [l]) m =
      .error
        (m'.input.annotate (.tex { kind := .runawayArgument, details := [call.text] })) m' := by
  obtain ⟨us, ws, a, n, hus, hscanned, -, hloop⟩ :=
    delimitedArgument_of_read call hbraces hyields hacc hdepth hearly hfuel
  have hstep : d.delimitedStep call (ds ++ [l]) a m₁ =
      .error
        (m'.input.annotate (.tex { kind := .runawayArgument, details := [call.text] })) m' := by
    unfold delimitedStep
    rw [bind_of_ok hend]
    rfl
  rw [hloop]
  apply bind_of_error
  rw [iterate, bind_of_error hstep]

/-- A delimited argument of a long macro ends at the first occurrence of its delimiters
    outside of braces.  Exactly the tokens up to the end of the delimiters are read; the
    argument is what stands in front of them, without its braces if it is one group.  A
    brace that closes none that is open, and the end of the input, are errors if they come
    first. -/
theorem delimitedArgument_ends_at_first (d : MacroDef) (call : Token) {delims ts : TokenList}
    (hlong : d.isLong = true) (hne : delims ≠ []) (hbraces : PatternBraces delims)
    {m m' : Machine} (hyields : m.Yields ts m')
    (houter : ∀ t ∈ ts, ∀ o, meaningIn m.env t = some (.defined o) → o.isOuter = false)
    {fuel : Nat} (hfuel : ts.length < fuel) :
    (∀ k, DelimitedAt delims ts k → (∀ j < k, ¬ DelimitedAt delims ts j) →
      ∃ arg m₁, delimitedArgument fuel d call delims m = .ok arg m₁ ∧
        m.Yields (ts.take (k + delims.length)) m₁ ∧ m₁.Yields (ts.drop (k + delims.length)) m' ∧
        (∀ g : Braced, ts.take k = g.tokens → arg = g.inner) ∧
        ((∀ g : Braced, ts.take k ≠ g.tokens) → arg = ts.take k)) ∧
    (∀ k c, Balanced (ts.take k) → ts[k]? = some (.char c .endGroup) →
      (∀ j, ¬ DelimitedAt delims (ts.take k) j) →
      ∃ m₁, m.Yields (ts.take (k + 1)) m₁ ∧
        delimitedArgument fuel d call delims m =
          .error (.tex { kind := .extraRightBrace, details := [call.text],
                         token := some (.char c .endGroup) }) m₁) ∧
    ((∀ j, ¬ DelimitedAt delims ts j) →
      (∀ k c, Balanced (ts.take k) → ts[k]? ≠ some (.char c .endGroup)) →
      ∀ m₁, token? m' = .ok none m₁ →
        delimitedArgument fuel d call delims m =
          .error (m₁.input.annotate (.tex { kind := .runawayArgument,
                                            details := [call.text] })) m₁) := by
  obtain ⟨ds, l, rfl⟩ : ∃ ds l, delims = ds ++ [l] :=
    ⟨_, _, (List.dropLast_concat_getLast hne).symm⟩
  have hacc : ∀ t ∈ ts, d.Accepts m.env t := by
    intro t ht
    refine ⟨fun hshort => ?_, houter t ht⟩
    rw [hlong] at hshort
    contradiction
  refine ⟨?_, ?_, ?_⟩
  · -- The loop ends with the delimiters, so it never reads what is behind them.
    intro k hk hfirst
    have hlist : ts.take (k + (ds ++ [l]).length) = ts.take k ++ (ds ++ [l]) := hk.take_eq
    rw [← List.take_append_drop (k + (ds ++ [l]).length) ts] at hyields
    obtain ⟨m₁, hread, hrest⟩ := hyields.exists_of_append
    have hnone := hk.not_before hfirst
    have hk' : k + (ds ++ [l]).length ≤ ts.length := hk.length_le hne
    have hlength : (ts.take k ++ ds).length < ts.length := by
      simp only [List.length_append, List.length_take, List.length_singleton] at hk' ⊢
      omega
    have hargument :
        delimitedArgument fuel d call (ds ++ [l]) m = .ok (stripGroup (ts.take k)) m₁ := by
      rw [hlist] at hread
      refine delimitedArgument_of_first call hbraces hk.1 hnone hread ?_ (by omega)
      intro t ht
      rw [← hlist] at ht
      exact hacc t (List.mem_of_mem_take ht)
    refine ⟨_, m₁, hargument, hread, hrest, ?_, hk.1.stripGroup_of_forall_ne⟩
    intro g hg
    rw [hg, g.stripGroup_tokens]
  · intro k c hbalanced hclose hnone
    have hk : k < ts.length := (List.getElem?_eq_some_iff.mp hclose).1
    have hlist : ts.take (k + 1) = ts.take k ++ [.char c .endGroup] := by
      rw [List.take_add_one, hclose]
      rfl
    rw [← List.take_append_drop (k + 1) ts] at hyields
    obtain ⟨m₁, hread, -⟩ := hyields.exists_of_append
    refine ⟨m₁, hread, ?_⟩
    rw [hlist] at hread
    refine delimitedArgument_of_unmatched call hbraces hbalanced hnone hread
      (fun t ht => hacc t (List.mem_of_mem_take ht)) ?_
    rw [List.length_take]
    omega
  · intro hnone hopen m₁ hend
    cases hdepth : braceDepthAfter? 0 ts with
    | none =>
      -- The depth is lost at a brace that closes none, and there is no such brace.
      obtain ⟨vs, c, rest, hlist, hvs⟩ := exists_unmatched (braceDepthAfter?_nil 0) hdepth
      rw [List.nil_append] at hlist
      refine absurd ?_ (hopen vs.length c ?_)
      · rw [hlist, List.getElem?_append_right (Nat.le_refl _), Nat.sub_self]
        rfl
      · rwa [hlist, List.take_left]
    | some depth =>
      exact delimitedArgument_of_end call hbraces hdepth hnone hyields hend hacc hfuel

/-- Delimiters that overlap with themselves, right behind a group: of {x}aaabz, with the
    delimiters aab, the argument is {x}a. -/
theorem delimitedArgument_ends_at_first_overlapping :
    let group : TokenList := [.char 123 .beginGroup, .letter 120, .char 125 .endGroup]
    ∃ m₁, delimitedArgument 20 { isLong := true } (.cs "m") [.letter 97, .letter 97, .letter 98]
        (Machine.feed { env := {} } (group ++ [.letter 97, .letter 97, .letter 97, .letter 98,
          .letter 122])) =
        .ok (group ++ [.letter 97]) m₁ ∧
      m₁.Yields [.letter 122] (Machine.feed { env := {} } []) := by
  intro group
  let ts : TokenList :=
    group ++ [.letter 97, .letter 97, .letter 97, .letter 98, .letter 122]
  have hplain : ∀ t ∈ ts, t.isCommand = false := by decide
  have hat : DelimitedAt [.letter 97, .letter 97, .letter 98] ts 4 := by decide
  have hkept : isSingleGroup (ts.take 4) = false := by decide
  have hread : (Machine.feed { env := {} } ts).Yields ts (Machine.feed { env := {} } []) :=
    Machine.Yields.of_feed { env := {} } ts []
  obtain ⟨arg, m₁, hargument, -, hrest, -, hkeep⟩ :=
    (delimitedArgument_ends_at_first { isLong := true } (.cs "m") rfl (by decide)
      (patternBraces_of_not_brace (by decide)) hread
      (fun t ht => (accepts_of_not_isCommand {} _ (hplain t ht)).not_outer)
      (by decide : ts.length < 20)).1 4 hat (by decide)
  refine ⟨m₁, ?_, hrest⟩
  rw [hargument, hkeep]
  · rfl
  · intro g hg
    have hsingle := hat.1.isSingleGroup_iff.mpr ⟨g, hg⟩
    exact Bool.false_ne_true (hkept.symm.trans hsingle)

end MacroDef

end TexEngine
