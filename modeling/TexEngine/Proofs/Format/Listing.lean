/-
  TexEngine.Proofs.Format.Listing

  What a store knows when it is opened.  The store lists its directory, and takes the time of
  the last change of a file for the time of its last use; so it knows exactly the files that
  have the extension of formats, and of each of them when it was written, not when it was
  loaded.
-/
import TexEngine.Format.Store
import TexEngine.Proofs.Files.FullNames
import TexEngine.Proofs.Files.OldFiles
import TexEngine.Proofs.Format.Pruning

namespace TexEngine.FileTree

variable {t : FileTree} {c full : String} {e : FileEntry}

/-- A directory has the entries that stand below its name. -/
theorem mem_list_iff (hc : Path.IsComponent c) :
    (c, e) ∈ t.list full ↔ t.found? (Path.child full c) = some e := by
  have hroot : ¬(Path.child full c == "/") = true := by simpa using Path.child_ne_root hc full
  rw [list, found?, if_neg hroot, List.mem_filterMap]
  constructor
  · rintro ⟨⟨x, e'⟩, hmem, hlisted⟩
    dsimp only at hlisted
    split at hlisted
    · rename_i hx
      obtain ⟨hbase, rfl⟩ := Prod.mk.inj (Option.some.inj hlisted)
      rw [← hbase, ← beq_iff_eq.mp hx]
      exact Std.TreeMap.mem_toList_iff_getElem?_eq_some.mp hmem
    · contradiction
  · intro hentry
    refine ⟨(Path.child full c, e), Std.TreeMap.mem_toList_iff_getElem?_eq_some.mpr hentry, ?_⟩
    simp [Path.base_child hc]

end TexEngine.FileTree

namespace TexEngine.FormatStore

variable {t : FileTree} {s : FormatStore} {dir key name : String} {info : StoredFormat}
variable {o : Outcome FormatStore} {items : List (String × FileEntry)}

/-! ## Names of formats -/

theorem endsWith_iff (s t : String) : s.endsWith t = true ↔ t.toList <:+ s.toList := by
  rw [String.endsWith, String.Slice.endsWith_string_iff, String.copy_toSlice]

/-- A format is not taken for a file that was not finished. -/
theorem endsWith_temporary_file (key : String) :
    (key ++ fileExtension).endsWith temporaryExtension = false := by
  have htemporary : temporaryExtension.toList = ['.', 't', 'm', 'p'] := by
    simp [temporaryExtension]
  have hfile : fileExtension.toList = ['.', 'f', 'm', 't'] := by simp [fileExtension]
  rw [Bool.eq_false_iff, ne_eq, endsWith_iff, String.toList_append, htemporary, hfile]
  rintro ⟨front, hfront⟩
  simpa using (List.append_inj' hfront rfl).2

/-- The formats are the files with the extension, and are used when they were changed. -/
theorem classify_eq_format_iff {e : FileEntry} :
    classify name e = .format key info ↔
      name = key ++ fileExtension ∧
        ∃ d, e = .file d ∧ info = { size := .ofNat d.size, used := d.modified } := by
  cases e with
  | directory =>
    rw [classify]
    split <;> simp
  | file d =>
    rw [classify]
    constructor
    · intro h
      split at h
      · contradiction
      · split at h
        · rename_i hformat
          -- What stands in front of the extension is the key.
          obtain ⟨front, hfront⟩ := (endsWith_iff _ _).mp hformat
          have hname : name = String.ofList front ++ fileExtension := by
            rw [← String.toList_inj, String.toList_append, String.toList_ofList, hfront]
          have hlength : name.length - fileExtension.length = front.length := by
            rw [hname, String.length_append, Nat.add_sub_cancel, String.length_ofList]
          rw [hlength, ← hfront, List.take_left] at h
          obtain ⟨rfl, rfl⟩ := Listed.format.inj h
          exact ⟨hname, d, rfl, rfl⟩
        · contradiction
    · rintro ⟨rfl, d', hd, rfl⟩
      obtain rfl := FileEntry.file.inj hd
      -- A key with the extension is not taken for a temporary file, and is cut off in front of
      -- it.
      have hformat : (key ++ fileExtension).endsWith fileExtension = true := by
        rw [endsWith_iff, String.toList_append]
        exact List.suffix_append _ _
      have hlength : (key ++ fileExtension).length - fileExtension.length = key.toList.length := by
        rw [String.length_append, Nat.add_sub_cancel, String.length_toList]
      rw [endsWith_temporary_file, if_neg Bool.false_ne_true, if_pos hformat, hlength,
        String.toList_append, List.take_left, String.ofList_toList]

/-! ## Going through the directory -/

theorem loses_record (dir : String) (o : Outcome FormatStore) (item : String × FileEntry) :
    o.tree.Loses (record dir o item).tree := by
  rw [record]
  split
  · cases hremove : o.tree.remove (Path.join dir item.1) with
    | error reason => exact .refl _
    | ok t => exact FileTree.loses_of_remove hremove
  · exact .refl _
  · exact .refl _

theorem record_dir (dir : String) (o : Outcome FormatStore) (item : String × FileEntry) :
    (record dir o item).value.dir = o.value.dir := by
  rw [record]
  split <;> rfl

theorem record_opened (dir : String) (o : Outcome FormatStore) (item : String × FileEntry) :
    (record dir o item).value.opened = o.value.opened := by
  rw [record]
  split <;> rfl

theorem files_record (dir : String) (o : Outcome FormatStore) (item : String × FileEntry)
    (h : (record dir o item).value.files[key]? = some info) :
    o.value.files[key]? = some info ∨ classify item.1 item.2 = .format key info := by
  rw [record] at h
  split at h
  · exact .inl h
  · exact .inl h
  · rename_i key' info' hclassify
    rw [Std.TreeMap.getElem?_insert] at h
    split at h
    · rename_i hsame
      rw [← Std.LawfulEqCmp.eq_of_compare hsame, ← Option.some.inj h]
      exact .inr hclassify
    · exact .inl h

theorem mem_files_record (dir : String) (o : Outcome FormatStore) (item : String × FileEntry)
    (h : key ∈ o.value.files ∨ ∃ info, classify item.1 item.2 = .format key info) :
    key ∈ (record dir o item).value.files := by
  rw [record]
  split
  · simp_all
  · simp_all
  · rename_i key' info' hclassify
    refine Std.TreeMap.mem_insert.mpr ?_
    obtain hold | ⟨info, hnew⟩ := h
    · exact .inr hold
    · obtain ⟨rfl, -⟩ := Listed.format.inj (hclassify.symm.trans hnew)
      exact .inl Std.ReflCmp.compare_self

/-- What the store knows after it went through entries of the directory. -/
theorem foldl_record (dir : String) (o : Outcome FormatStore)
    (items : List (String × FileEntry)) :
    o.tree.Loses (items.foldl (record dir) o).tree ∧
      (items.foldl (record dir) o).value.dir = o.value.dir ∧
      (items.foldl (record dir) o).value.opened = o.value.opened := by
  induction items generalizing o with
  | nil => exact ⟨.refl _, rfl, rfl⟩
  | cons item items ih =>
    obtain ⟨hloses, hdir, hopened⟩ := ih (record dir o item)
    exact ⟨(loses_record dir o item).trans hloses, hdir.trans (record_dir dir o item),
      hopened.trans (record_opened dir o item)⟩

theorem files_foldl_record (h : (items.foldl (record dir) o).value.files[key]? = some info) :
    o.value.files[key]? = some info ∨
      ∃ item ∈ items, classify item.1 item.2 = .format key info := by
  induction items generalizing o with
  | nil => exact .inl h
  | cons item items ih =>
    obtain hfirst | ⟨item', hitem', hclassify⟩ := ih h
    · exact (files_record dir o item hfirst).imp id fun hclassify =>
        ⟨item, List.mem_cons_self, hclassify⟩
    · exact .inr ⟨item', List.mem_cons_of_mem _ hitem', hclassify⟩

theorem mem_files_foldl_record (dir : String) (o : Outcome FormatStore)
    (h : key ∈ o.value.files ∨ ∃ item ∈ items, classify item.1 item.2 = .format key info) :
    key ∈ (items.foldl (record dir) o).value.files := by
  induction items generalizing o with
  | nil => simpa using h
  | cons item items ih =>
    refine ih (record dir o item) ?_
    obtain hold | ⟨item', hitem', hclassify⟩ := h
    · exact .inl (mem_files_record dir o item (.inl hold))
    · obtain rfl | hrest := List.mem_cons.mp hitem'
      · exact .inl (mem_files_record dir o item' (.inr ⟨info, hclassify⟩))
      · exact .inr ⟨item', hrest, hclassify⟩

/-! ## Opening -/

/-- The full name of the file with a key, in a directory that is seen from `cwd`. -/
def place (cwd dir key : String) : String :=
  Path.child (Path.absolute cwd dir) (key ++ fileExtension)

theorem place_inj {cwd key' : String} : place cwd dir key = place cwd dir key' ↔ key = key' := by
  rw [place, place, Path.child_inj]
  simp [← String.toList_inj]

/-- A store that goes through its directory knows the files with the extension of formats. -/
theorem files_list_iff (hkey : '/' ∉ key.toList) (hempty : o.value.files = ∅) :
    ((t.list (Path.absolute t.cwd dir)).foldl (record dir) o).value.files[key]? = some info ↔
      ∃ d, t.found? (place t.cwd dir key) = some (.file d) ∧
        info = { size := .ofNat d.size, used := d.modified } := by
  have hitem (e : FileEntry) : (key ++ fileExtension, e) ∈ t.list (Path.absolute t.cwd dir) ↔
      t.found? (place t.cwd dir key) = some e :=
    FileTree.mem_list_iff (isComponent_file hkey)
  have hknown {info : StoredFormat}
      (hinfo : ((t.list (Path.absolute t.cwd dir)).foldl (record dir) o).value.files[key]? =
        some info) :
      ∃ d, t.found? (place t.cwd dir key) = some (.file d) ∧
        info = { size := .ofNat d.size, used := d.modified } := by
    obtain hold | ⟨⟨name, e⟩, hmem, hclassify⟩ := files_foldl_record hinfo
    · simp [hempty] at hold
    · obtain ⟨hname, d, he, hd⟩ := classify_eq_format_iff.mp hclassify
      dsimp only at hname he
      subst hname he
      exact ⟨d, (hitem _).mp hmem, hd⟩
  refine ⟨hknown, fun ⟨d, hd, hinfo⟩ => ?_⟩
  have hmem := mem_files_foldl_record dir o (.inr ⟨_, (hitem _).mpr hd,
    classify_eq_format_iff.mpr ⟨rfl, d, rfl, rfl⟩⟩)
  -- An entry of the directory that comes later could only say the same.
  have hget := Std.TreeMap.getElem?_eq_some_getElem hmem
  obtain ⟨d', hd', hsame⟩ := hknown hget
  obtain rfl := FileEntry.file.inj (Option.some.inj (hd.symm.trans hd'))
  exact hget.trans (congrArg some (hsame.trans hinfo.symm))

/-- A store that was opened in a directory: it knows the formats there with the times of
    their last change, and no file was made. -/
structure Opening (t : FileTree) (dir : String) (o : Outcome FormatStore) : Prop where
  seen : o.value.dir = dir
  cwd : o.tree.cwd = t.cwd
  opened : t.clock ≤ o.value.opened
  clock : o.value.opened < o.tree.clock
  named : o.value.Named
  files : ∀ key ∈ o.value.files, o.tree.found? (place t.cwd dir key) ≠ some .directory
  listed : ∀ key d, '/' ∉ key.toList → o.tree.found? (place t.cwd dir key) = some (.file d) →
    t.found? (place t.cwd dir key) = some (.file d) ∧
      o.value.files[key]? = some { size := .ofNat d.size, used := d.modified }

theorem opening_of_openIn (h : openIn t dir = .ok o) : Opening t dir o := by
  have hnamed := named_of_openIn h
  rw [openIn] at h
  cases hmkdir : t.mkdirAll dir with
  | error fault => simp [hmkdir, bind, Except.bind] at h
  | ok t' =>
    rw [hmkdir] at h
    obtain rfl := Except.ok.inj h
    have hold := FileTree.makesNoFile_of_mkdirAll hmkdir
    -- First the directory is listed, then leftovers are removed.
    obtain ⟨hloses, hseen, hopened⟩ := foldl_record dir
      { value := { dir, opened := t'.clock }, tree := { t' with clock := t'.clock + 1 } }
      (t'.list (Path.absolute t'.cwd dir))
    have hclock := hloses.clock
    dsimp only at hclock hopened
    refine ⟨hseen, hloses.cwd.trans hold.cwd, ?_, ?_, hnamed, ?_, ?_⟩
    · exact Int.le_trans hold.clock (Int.le_of_eq hopened.symm)
    · exact Int.lt_of_le_of_lt (Int.le_of_eq hopened) (by rw [hclock]; exact Int.lt_succ _)
    · rw [← hold.cwd]
      intro key hkey hdirectory
      obtain ⟨d, hd, -⟩ := (files_list_iff (hnamed key hkey) rfl).mp
        (Std.TreeMap.getElem?_eq_some_getElem hkey)
      have hthere := hloses.entry _ _ hdirectory
      exact absurd (hd.symm.trans hthere) (by simp)
    · rw [← hold.cwd]
      intro key d hkey hd
      have hthere := hloses.entry _ _ hd
      exact ⟨hold.file _ _ hthere, (files_list_iff hkey rfl).mpr ⟨d, hthere, rfl⟩⟩

end TexEngine.FormatStore
