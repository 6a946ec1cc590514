/-
  TexEngine.Proofs.Format.Pruning

  What remains of a store that is closed.  Files are removed from the front of a list that is
  ordered by use, one by one, and each removal takes a single file out of the tree, because
  the files of a store have different places.  The store adds sizes as machine words.  What
  it keeps is small enough if their exact sum is a machine word, too.
-/
import TexEngine.Format.Store
import TexEngine.Proofs.Files.OldFiles

namespace TexEngine.FormatStore

variable {s : FormatStore} {t : FileTree} {key : String} {opened limit : Int} {total : Int64}
variable {files : List (String × StoredFormat)}

/-! ## Where the files of a store are -/

/-- The keys of a store are what is in front of the extension in names of its directory. -/
def Named (s : FormatStore) : Prop :=
  ∀ key ∈ s.files, '/' ∉ key.toList

/-- No short text has the extension. -/
theorem file_ne_of_length {c : String} (h : c.length < 4) : key ++ fileExtension ≠ c := by
  rintro rfl
  rw [String.length_append] at h
  have hlength : fileExtension.length = 4 := rfl
  omega

theorem isComponent_file (h : '/' ∉ key.toList) : Path.IsComponent (key ++ fileExtension) where
  slash := by
    rw [String.toList_append, List.mem_append, not_or]
    exact ⟨h, by decide⟩
  empty := file_ne_of_length (by decide)
  dot := file_ne_of_length (by decide)

theorem slash_not_mem_encode (bytes : List UInt8) :
    '/' ∉ (Text.Base64.encode bytes).toList := by
  have hdigit (n : Nat) : Text.Base64.digit n ≠ '/' := by
    have hall : ∀ i < 64, Text.Base64.alphabet.toList.getD i 'A' ≠ '/' := by decide +kernel
    exact hall _ (Nat.mod_lt _ (by decide))
  rw [Text.Base64.encode, String.toList_ofList]
  fun_induction Text.Base64.encodeChars bytes <;> simp_all [Ne.symm]

theorem slash_not_mem_key (job : String) : '/' ∉ (FormatStore.key job).toList :=
  slash_not_mem_encode _

theorem slash_not_mem_of_classify {name key : String} {entry : FileEntry} {info : StoredFormat}
    (h : classify (Path.base name) entry = .format key info) : '/' ∉ key.toList := by
  cases entry with
  | directory =>
    rw [classify] at h
    split at h <;> contradiction
  | file d =>
    rw [classify] at h
    split at h
    · contradiction
    · split at h
      · rename_i hformat
        -- The root is no name of a format.
        have hroot : Path.base name ≠ "/" := by
          intro hroot
          rw [hroot] at hformat
          exact absurd hformat (by decide)
        cases h
        rw [String.toList_ofList]
        exact fun hslash => Path.slash_not_mem_base hroot (List.mem_of_mem_take hslash)
      · contradiction

theorem named_of_foldl {dir : String} {items : List (String × FileEntry)}
    (hitems : ∀ item ∈ items, ∃ name, item.1 = Path.base name) {o : Outcome FormatStore}
    (ho : o.value.Named) : (items.foldl (record dir) o).value.Named := by
  induction items generalizing o with
  | nil => exact ho
  | cons item items ih =>
    obtain ⟨⟨name, hname⟩, hitems⟩ := List.forall_mem_cons.mp hitems
    refine ih hitems ?_
    rw [record, hname]
    split
    · exact ho
    · exact ho
    · rename_i key info hclassify
      intro key' hkey'
      obtain hsame | hold := Std.TreeMap.mem_insert.mp hkey'
      · rw [← Std.LawfulEqCmp.eq_of_compare hsame]
        exact slash_not_mem_of_classify hclassify
      · exact ho key' hold

theorem named_of_openIn {dir : String} {o : Outcome FormatStore} (h : openIn t dir = .ok o) :
    o.value.Named := by
  rw [openIn] at h
  cases hdir : t.mkdirAll dir with
  | error fault => rw [hdir] at h; nomatch h
  | ok t' =>
    rw [hdir] at h
    obtain rfl := Except.ok.inj h
    refine named_of_foldl (fun item hitem => ?_) fun key hkey => ?_
    · obtain ⟨⟨name, entry⟩, -, hlisted⟩ := List.mem_filterMap.mp hitem
      dsimp only at hlisted
      split at hlisted
      · obtain rfl := Option.some.inj hlisted
        exact ⟨name, rfl⟩
      · contradiction
    · exact absurd hkey Std.TreeMap.not_mem_emptyc

theorem Named.insert (h : s.Named) (job : String) (info : StoredFormat) :
    Named { s with files := s.files.insert (FormatStore.key job) info } := by
  intro key' hkey'
  obtain hsame | hold := Std.TreeMap.mem_insert.mp hkey'
  · rw [← Std.LawfulEqCmp.eq_of_compare hsame]
    exact slash_not_mem_key job
  · exact h key' hold

/-- Storing writes a file and notes a later time than that of the file. -/
theorem exists_of_put {img : Image} {s' : FormatStore} {t' : FileTree}
    (h : s.put t img = .ok (s', t')) :
    ∃ full e, t.locate (s.path (FormatStore.key img.job)) = .ok (full, e) ∧
      s' = { s with
        files := s.files.insert (FormatStore.key img.job)
          { size := .ofNat img.encode.utf8ByteSize, used := t.clock + 1 } } ∧
      t' = { t with
        clock := t.clock + 1 + 1
        entries := t.entries.insert full (.file
          { content := img.encode, size := img.encode.utf8ByteSize, modified := t.clock }) } := by
  rw [FormatStore.put] at h
  by_cases hjob : img.job.isEmpty
  · rw [if_pos hjob] at h
    contradiction
  · rw [if_neg hjob] at h
    cases hwrite : t.write (s.path (FormatStore.key img.job)) img.encode
        img.encode.utf8ByteSize with
    | error reason => simp [hwrite, throw, throwThe, MonadExceptOf.throw] at h
    | ok tree =>
      simp only [hwrite] at h
      obtain ⟨full, e, hlocate, rfl⟩ := FileTree.exists_of_write hwrite
      obtain ⟨rfl, rfl⟩ := Prod.mk.inj (Except.ok.inj h)
      exact ⟨full, e, hlocate, rfl, rfl⟩

/-- Loading notes the current time. -/
theorem eq_of_get {name : String} {img : Image} {s' : FormatStore} {t' : FileTree}
    (h : s.get t name = .ok (img, s', t')) :
    s' = { s with
      files := s.files.modify (FormatStore.key name) fun info => { info with used := t.clock } } ∧
      t' = { t with clock := t.clock + 1 } := by
  rw [FormatStore.get] at h
  dsimp only at h
  split at h
  · contradiction
  · contradiction
  · split at h
    · contradiction
    · split at h
      · contradiction
      · obtain ⟨-, hrest⟩ := Prod.mk.inj (Except.ok.inj h)
        obtain ⟨rfl, rfl⟩ := Prod.mk.inj hrest
        exact ⟨rfl, rfl⟩

theorem Named.put {img : Image} {s' : FormatStore} {t' : FileTree} (h : s.Named)
    (hput : s.put t img = .ok (s', t')) : s'.Named := by
  obtain ⟨full, e, -, rfl, -⟩ := exists_of_put hput
  exact h.insert _ _

theorem Named.get {name : String} {img : Image} {s' : FormatStore} {t' : FileTree} (h : s.Named)
    (hget : s.get t name = .ok (img, s', t')) : s'.Named := by
  obtain ⟨rfl, -⟩ := eq_of_get hget
  exact fun key hkey => h key (Std.TreeMap.mem_modify.mp hkey)

/-- Files with different keys have different places. -/
theorem ne_of_locate_path {key' full full' : String} {e e' : Option FileEntry}
    (h : '/' ∉ key.toList) (h' : '/' ∉ key'.toList) (hne : key ≠ key')
    (hfull : t.locate (s.path key) = .ok (full, e))
    (hfull' : t.locate (s.path key') = .ok (full', e')) : full ≠ full' :=
  FileTree.ne_of_locate_join (isComponent_file h) (file_ne_of_length (by decide))
    (isComponent_file h') (file_ne_of_length (by decide))
    (by simpa [← String.toList_inj] using hne) hfull hfull'

/-! ## Sums of sizes -/

/-- The size of files together, which may be too large for a machine word. -/
def exactSize : List (String × StoredFormat) → Int
  | [] => 0
  | f :: files => f.2.size.toInt + exactSize files

/-- No file has a negative size, and the store can add the sizes of all files. -/
structure Addable (files : List (String × StoredFormat)) : Prop where
  sizes : ∀ f ∈ files, 0 ≤ f.2.size.toInt
  fits : exactSize files ≤ Int64.maxValue.toInt

theorem exactSize_cons (f : String × StoredFormat) (files : List (String × StoredFormat)) :
    exactSize (f :: files) = f.2.size.toInt + exactSize files :=
  rfl

theorem exactSize_perm {files' : List (String × StoredFormat)} (h : files.Perm files') :
    exactSize files = exactSize files' := by
  induction h with
  | nil => rfl
  | cons f _ ih => rw [exactSize_cons, exactSize_cons, ih]
  | swap f g files =>
    simp only [exactSize_cons]
    omega
  | trans _ _ ih ih' => exact ih.trans ih'

theorem exactSize_nonneg (h : ∀ f ∈ files, 0 ≤ f.2.size.toInt) : 0 ≤ exactSize files := by
  induction files with
  | nil => exact Int.le_refl 0
  | cons f files ih =>
    rw [List.forall_mem_cons] at h
    exact Int.add_nonneg h.1 (ih h.2)

theorem Addable.perm {files' : List (String × StoredFormat)} (h : Addable files)
    (hperm : files.Perm files') : Addable files' where
  sizes f hf := h.sizes f (hperm.mem_iff.mpr hf)
  fits := exactSize_perm hperm ▸ h.fits

theorem Addable.tail {f : String × StoredFormat} (h : Addable (f :: files)) : Addable files where
  sizes g hg := h.sizes g (List.mem_cons_of_mem _ hg)
  fits := by
    have hsize := h.sizes f List.mem_cons_self
    have hfits := h.fits
    rw [exactSize_cons] at hfits
    omega

theorem prune_append (opened limit : Int) (total : Int64) (files : List (String × StoredFormat)) :
    (prune opened limit total files).1 ++ (prune opened limit total files).2 = files := by
  fun_induction prune opened limit total files with
  | case1 | case2 => rfl
  | case3 total f rest hgo removed kept hrest ih =>
    rw [hrest] at ih
    exact congrArg (f :: ·) ih

/-- Files that were used since the store was opened stay, whatever the sizes are. -/
theorem unused_of_prune (hlimit : 0 ≤ limit) :
    ∀ f ∈ (prune opened limit total files).1, f.2.used < opened := by
  fun_induction prune opened limit total files with
  | case1 | case2 => exact fun _ hf => absurd hf List.not_mem_nil
  | case3 total f rest hgo removed kept hrest ih =>
    rw [hrest] at ih
    refine List.forall_mem_cons.mpr ⟨Int.not_le.mp fun hused => hgo (.inr ⟨hlimit, hused⟩), ih⟩

/-- Files are removed in their order, whatever the sizes are. -/
theorem oldest_of_prune (hsorted : files.Pairwise fun f g => f.2.used ≤ g.2.used) :
    ∀ f ∈ (prune opened limit total files).1, ∀ g ∈ (prune opened limit total files).2,
      f.2.used ≤ g.2.used := by
  rw [← prune_append opened limit total files] at hsorted
  exact (List.pairwise_append.mp hsorted).2.2

/-- A choice of files that makes the others small enough, without those in use, with the
    files first that were not used for the longest time, and with none too many. -/
structure Pruned (opened limit : Int) (removed kept : List (String × StoredFormat)) : Prop where
  unused : 0 ≤ limit → ∀ f ∈ removed, f.2.used < opened
  oldest : ∀ f ∈ removed, ∀ g ∈ kept, f.2.used ≤ g.2.used
  enough : 0 ≤ limit → exactSize kept ≤ limit ∨ ∀ g ∈ kept, opened ≤ g.2.used
  needed : ∀ before f after, removed = before ++ f :: after →
    limit < exactSize (f :: after ++ kept)
  everything : limit < 0 → kept = []

/-- Nothing has to be removed if the files are small enough, or all of them are in use. -/
theorem Pruned.stop (hsizes : ∀ f ∈ files, 0 ≤ f.2.size.toInt)
    (h : exactSize files ≤ limit ∨ ∀ f ∈ files, 0 ≤ limit ∧ opened ≤ f.2.used) :
    Pruned opened limit [] files where
  unused _ _ hf := absurd hf List.not_mem_nil
  oldest _ hf := absurd hf List.not_mem_nil
  enough _ := h.imp id fun hused g hg => (hused g hg).2
  needed := by simp
  everything hneg := List.eq_nil_iff_forall_not_mem.mpr fun f hf => by
    obtain hsmall | hused := h
    · have := exactSize_nonneg hsizes
      omega
    · have := (hused f hf).1
      omega

/-- The file that was not used for the longest time is removed if the files are too large
    and it may be removed. -/
theorem Pruned.remove {f : String × StoredFormat} {removed kept : List (String × StoredFormat)}
    (h : Pruned opened limit removed kept) (hlimit : limit < exactSize (f :: removed ++ kept))
    (hunused : 0 ≤ limit → f.2.used < opened) (holdest : ∀ g ∈ kept, f.2.used ≤ g.2.used) :
    Pruned opened limit (f :: removed) kept where
  unused hpos := List.forall_mem_cons.mpr ⟨hunused hpos, h.unused hpos⟩
  oldest := List.forall_mem_cons.mpr ⟨holdest, h.oldest⟩
  enough := h.enough
  needed before g after hsplit := by
    obtain ⟨rfl, hcons⟩ | ⟨before', rfl, hcons⟩ := List.cons_eq_append_iff.mp hsplit
    · obtain ⟨rfl, rfl⟩ := List.cons.inj hcons
      exact hlimit
    · exact h.needed before' g after hcons
  everything := h.everything

theorem isByUse_byUse (s : FormatStore) : s.IsByUse s.byUse where
  perm := List.mergeSort_perm _ _
  sorted := by
    have hsorted : s.byUse.Pairwise fun f g => decide (f.2.used ≤ g.2.used) :=
      List.pairwise_mergeSort (fun _ _ _ hab hbc => by simp at *; omega)
        (fun _ _ => by simp; omega) _
    exact hsorted.imp fun h => of_decide_eq_true h

/-! ## What becomes of the tree -/

/-- What is found after removals was there before. -/
theorem stat_of_stat_removeAll {path : String} {entry : FileEntry}
    (files : List (String × StoredFormat)) (h : (s.removeAll t files).2.stat path = .ok entry) :
    t.stat path = .ok entry := by
  fun_induction removeAll s t files with
  | case1 t => exact h
  | case2 t f rest t' hremove ih =>
    obtain ⟨full, found, -, rfl⟩ := FileTree.exists_without_of_remove hremove
    exact FileTree.stat_of_stat_without (ih h)
  | case3 t f rest reason hremove ih => exact ih h

/-- Files that are removed are no files any more, whether there was a fault or not. -/
theorem not_file_removeAll {f : String × StoredFormat} (hf : f ∈ files) (d : FileData) :
    (s.removeAll t files).2.stat (s.path f.1) ≠ .ok (.file d) := by
  fun_induction removeAll s t files with
  | case1 t => exact absurd hf List.not_mem_nil
  | case2 t f' rest t' hremove ih =>
    obtain rfl | hf := List.mem_cons.mp hf
    · intro hthere
      have hbefore := stat_of_stat_removeAll rest hthere
      obtain ⟨full, found, hlocate, rfl⟩ := FileTree.exists_without_of_remove hremove
      obtain ⟨full', hlocate'⟩ := FileTree.locate_of_stat (FileTree.stat_of_stat_without hbefore)
      obtain ⟨-, hfound⟩ := Prod.mk.inj (Except.ok.inj (hlocate.symm.trans hlocate'))
      obtain rfl := Option.some.inj hfound
      nomatch (FileTree.stat_without_self hlocate).symm.trans hbefore
    · exact ih hf
  | case3 t f' rest reason hremove ih =>
    obtain rfl | hf := List.mem_cons.mp hf
    · intro hthere
      -- A file could have been removed.
      obtain ⟨full, hlocate⟩ := FileTree.locate_of_stat (stat_of_stat_removeAll rest hthere)
      nomatch hremove.symm.trans (FileTree.remove_of_locate hlocate)
    · exact ih hf

/-- Nothing else is lost if there are no directories among the files. -/
theorem stat_removeAll_of_not_mem {entry : FileEntry} (hnames : ∀ f ∈ files, '/' ∉ f.1.toList)
    (hfiles : ∀ f ∈ files, t.stat (s.path f.1) ≠ .ok .directory) (hkey : '/' ∉ key.toList)
    (hother : key ∉ files.map Prod.fst) (hentry : t.stat (s.path key) = .ok entry) :
    (s.removeAll t files).2.stat (s.path key) = .ok entry := by
  fun_induction removeAll s t files with
  | case1 t => exact hentry
  | case2 t f rest t' hremove ih =>
    obtain ⟨full, found, hlocate, rfl⟩ := FileTree.exists_without_of_remove hremove
    obtain ⟨hname, hnames⟩ := List.forall_mem_cons.mp hnames
    obtain ⟨hfile, hfiles⟩ := List.forall_mem_cons.mp hfiles
    rw [List.map_cons, List.mem_cons, not_or] at hother
    obtain ⟨d, rfl⟩ : ∃ d, found = .file d := by
      cases found with
      | directory => exact absurd (FileTree.stat_of_locate hlocate) hfile
      | file d => exact ⟨d, rfl⟩
    obtain ⟨place, hplace⟩ := FileTree.locate_of_stat hentry
    have hne : place ≠ full := ne_of_locate_path hkey hname hother.1 hplace hlocate
    have hthere := FileTree.locate_without (FileTree.found?_of_locate hlocate) hplace hne
    exact ih hnames (fun g hg hdir => hfiles g hg (FileTree.stat_of_stat_without hdir)) hother.2
      (FileTree.stat_of_locate hthere)
  | case3 t f rest reason hremove ih =>
    rw [List.map_cons, List.mem_cons, not_or] at hother
    exact ih (List.forall_mem_cons.mp hnames).2 (List.forall_mem_cons.mp hfiles).2 hother.2 hentry

theorem mem_files_iff : key ∈ s.files ↔ key ∈ s.files.toList.map Prod.fst := by
  rw [Std.TreeMap.map_fst_toList_eq_keys, Std.TreeMap.mem_keys]

/-- The files that are removed when a store is closed, and those that stay. -/
def pruned (s : FormatStore) (files : List (String × StoredFormat)) (limit : Int) :
    List (String × StoredFormat) × List (String × StoredFormat) :=
  prune s.opened limit (totalSize (files.map Prod.snd)) files

theorem IsByUse.perm_pruned (h : s.IsByUse files) (limit : Int) :
    ((s.pruned files limit).1 ++ (s.pruned files limit).2).Perm s.files.toList := by
  rw [pruned, prune_append]
  exact h.perm

theorem IsByUse.mem_of_removed (h : s.IsByUse files) {f : String × StoredFormat}
    (hf : f ∈ (s.pruned files limit).1) : f.1 ∈ s.files :=
  mem_files_iff.mpr <| List.mem_map_of_mem <|
    (h.perm_pruned limit).mem_iff.mp (List.mem_append_left _ hf)

/-- Only a negative limit takes away more than the files. -/
theorem closeAlong_tree (s : FormatStore) (files : List (String × StoredFormat)) (t : FileTree)
    (limit : Int) :
    (s.closeAlong files t limit).tree =
      if limit < 0 then
        ((s.removeAll t (s.pruned files limit).1).2.remove s.dir).toOption.getD
          (s.removeAll t (s.pruned files limit).1).2
      else (s.removeAll t (s.pruned files limit).1).2 :=
  rfl

end TexEngine.FormatStore
