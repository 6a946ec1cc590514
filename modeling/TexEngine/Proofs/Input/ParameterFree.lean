/-
  TexEngine.Proofs.Input.ParameterFree

  Parameters occur in macros only.  Reading a line never gives one, so the input is free
  of parameters as long as none is put back.
-/
import TexEngine.Proofs.Input.Reads

namespace TexEngine

/-! ## Token lists -/

/-- No token of the list is a macro parameter. -/
def TokenList.ParameterFree (ts : TokenList) : Prop :=
  ∀ t ∈ ts, t.isParam = false

namespace TokenList

variable {ts us : TokenList} {t : Token}

@[simp] theorem parameterFree_nil : ParameterFree [] := by
  simp [ParameterFree]

@[simp] theorem parameterFree_cons :
    ParameterFree (t :: ts) ↔ t.isParam = false ∧ ParameterFree ts :=
  List.forall_mem_cons

@[simp] theorem parameterFree_append :
    ParameterFree (ts ++ us) ↔ ParameterFree ts ∧ ParameterFree us :=
  List.forall_mem_append

@[simp] theorem parameterFree_reverse : ParameterFree ts.reverse ↔ ParameterFree ts := by
  simp [ParameterFree]

theorem ParameterFree.of_subset (h : ParameterFree ts) (hsub : us ⊆ ts) : ParameterFree us :=
  fun t ht => h t (hsub ht)

/-- The tokens that text is turned into are characters, and none of them is a brace. -/
theorem isChar_of_mem_ofText {s : String} (ht : t ∈ ofText s) :
    t.isParam = false ∧ t.hasCat .beginGroup = false ∧ t.hasCat .endGroup = false := by
  obtain ⟨c, -, rfl⟩ := List.mem_map.mp ht
  unfold ofChar
  split <;> exact ⟨rfl, rfl, rfl⟩

theorem parameterFree_ofText (s : String) : ParameterFree (ofText s) :=
  fun _ ht => (isChar_of_mem_ofText ht).1

end TokenList

/-! ## Lines -/

theorem Cursor.isParam_controlSequence (cat : CharCode → Catcode) (cur : Cursor) :
    (cur.controlSequence cat).1.isParam = false := by
  rw [(controlSequence_spec cat cur).1]
  rfl

/-- A line gives characters and control sequences. -/
theorem Cursor.isParam_of_next? {cat : CharCode → Catcode} {cur : Cursor} {t : Token}
    (h : (cur.next? cat).1 = some (.token t)) : t.isParam = false := by
  fun_induction next? cat cur with
  | case1 cur hlt next hnext c after hcat t' cur' hcs =>
    simp only [Option.some.injEq, Lexeme.token.injEq] at h
    have hname := isParam_controlSequence cat after
    rw [hcs] at hname
    rw [← h]
    exact hname
  | case6 _ _ _ _ _ _ _ _ ih => exact ih h
  | case7 _ _ _ _ _ _ _ ih => exact ih h
  | _ =>
    -- In all other cases the lexeme is written down in the definition, if there is one.
    simp only [Option.some.injEq, Lexeme.token.injEq, reduceCtorEq] at h
    try rw [← h]; rfl

/-! ## Streams -/

namespace Stream

variable {lex : Lexicon} {t : Token}

theorem isParam_of_resultOf {x : Lexeme} (h : ∀ u, x = .token u → u.isParam = false)
    (hresult : resultOf (some x) = .token t) : t.isParam = false := by
  cases x with
  | invalid c => contradiction
  | token u =>
    injection hresult with hresult
    exact hresult ▸ h u rfl

theorem Reads.parameterFree {s s' : Stream} {result : StreamResult} (h : Reads lex s result s') :
    (∀ t, result = .token t → t.isParam = false) ∧ s'.pushed = s.pushed := by
  cases h with
  | sameLine hread =>
    refine ⟨fun t => isParam_of_resultOf ?_, rfl⟩
    rintro u rfl
    exact Cursor.isParam_of_next? (congrArg Prod.fst hread)
  | laterLine hline hend hreader hlines hskipped hread =>
    refine ⟨fun t => isParam_of_resultOf ?_, rfl⟩
    rintro u rfl
    exact Cursor.isParam_of_next? (congrArg Prod.fst hread)
  | exhausted | failed => exact ⟨nofun, rfl⟩

/-- What is read from the lines is no parameter, and what was pushed back stays. -/
theorem read_parameterFree (lex : Lexicon) (s : Stream) :
    (∀ t, (s.read lex).1 = .token t → t.isParam = false) ∧ (s.read lex).2.pushed = s.pushed :=
  (reads lex s).parameterFree

end Stream

/-! ## Sources -/

/-- No parameter has been pushed back. -/
def Source.ParameterFree (src : Source) : Prop :=
  ∀ s ∈ src.streams, TokenList.ParameterFree s.pushed

namespace Source

variable {lex : Lexicon} {src : Source}

theorem nextFrom_parameterFree (lex : Lexicon) (src : Source) (closed : List StreamId)
    {streams : List Stream} (h : ∀ s ∈ streams, TokenList.ParameterFree s.pushed) :
    (∀ t, (nextFrom lex src closed streams).result = .ok (some t) → t.isParam = false) ∧
      (nextFrom lex src closed streams).source.ParameterFree := by
  -- Reading takes tokens off a stream, or drops a stream that is finished; what it makes of
  -- characters is no parameter.
  fun_induction nextFrom lex src closed streams with
  | case1 closed => exact ⟨by simp, by simp [Source.ParameterFree]⟩
  | case2 closed s rest t ts hpushed =>
    rw [List.forall_mem_cons, hpushed, TokenList.parameterFree_cons] at h
    exact ⟨by simpa using h.1.1, List.forall_mem_cons.mpr ⟨h.1.2, h.2⟩⟩
  | case3 closed s rest hpushed t s' hread =>
    rw [List.forall_mem_cons] at h
    have hs := Stream.read_parameterFree lex s
    rw [hread] at hs
    refine ⟨by simpa using hs.1, List.forall_mem_cons.mpr ⟨?_, h.2⟩⟩
    rw [hs.2]
    exact h.1
  | case4 closed s rest hpushed f s' hread src' =>
    rw [List.forall_mem_cons] at h
    have hs := Stream.read_parameterFree lex s
    rw [hread] at hs
    refine ⟨by simp, List.forall_mem_cons.mpr ⟨?_, h.2⟩⟩
    rw [hs.2]
    exact h.1
  | case5 closed s rest hpushed s' hread ih =>
    rw [List.forall_mem_cons] at h
    exact ih h.2

/-- Reading gives no parameter, and leaves an input without parameters. -/
theorem next_parameterFree (lex : Lexicon) (h : src.ParameterFree) :
    (∀ t, (src.next lex).result = .ok (some t) → t.isParam = false) ∧
      (src.next lex).source.ParameterFree :=
  nextFrom_parameterFree lex src [] h

theorem push_parameterFree (h : src.ParameterFree) {ts : TokenList} (hts : ts.ParameterFree) :
    (src.push ts).ParameterFree := by
  cases ts with
  | nil => exact h
  | cons t ts =>
    obtain ⟨baseDir, streams, pending⟩ := src
    cases streams with
    | nil => exact List.forall_mem_singleton.mpr hts
    | cons s rest =>
      obtain ⟨hs, hrest⟩ := List.forall_mem_cons.mp h
      exact List.forall_mem_cons.mpr ⟨TokenList.parameterFree_append.mpr ⟨hts, hs⟩, hrest⟩

theorem pushReader_parameterFree (h : src.ParameterFree) (r : Reader) :
    (src.pushReader r).ParameterFree :=
  List.forall_mem_cons.mpr ⟨TokenList.parameterFree_nil, h⟩

theorem includeFile_parameterFree (h : src.ParameterFree) {files : FileTree} {fileName : String}
    {src' : Source} {r : Reader} (hinclude : src.includeFile files fileName = .ok (src', r)) :
    src'.ParameterFree := by
  obtain ⟨-, baseDir, rfl⟩ := exists_of_includeFile hinclude
  exact pushReader_parameterFree h r

theorem endInput_parameterFree (h : src.ParameterFree) : src.endInput.ParameterFree :=
  forall_mem_mark (fun _ hs => hs) h

end Source

end TexEngine
