/-
  TexEngine.Proofs.Files.OldFiles

  Changes of a tree that make no files.  Removals only take entries away, and a directory that
  is created stands where nothing was, so what is a file afterwards was the same file before.
-/
import TexEngine.Files.Tree
import TexEngine.Proofs.Files.Removal

namespace TexEngine.FileTree

variable {t t' t'' : FileTree} {path here full : String} {last : List String}

/-! ## Removals -/

/-- Entries were taken out of a tree, and nothing else changed. -/
structure Loses (t t' : FileTree) : Prop where
  cwd : t'.cwd = t.cwd
  clock : t'.clock = t.clock
  entry : ∀ x e, t'.found? x = some e → t.found? x = some e

theorem Loses.refl (t : FileTree) : t.Loses t where
  cwd := rfl
  clock := rfl
  entry _ _ h := h

theorem Loses.trans (h : t.Loses t') (h' : t'.Loses t'') : t.Loses t'' where
  cwd := h'.cwd.trans h.cwd
  clock := h'.clock.trans h.clock
  entry x e he := h.entry x e (h'.entry x e he)

theorem loses_without (t : FileTree) (x : String) : t.Loses (t.without x) where
  cwd := rfl
  clock := rfl
  entry y e he := ((found?_without_cases t x y).resolve_right (by simp [he])).symm.trans he

theorem loses_of_remove (h : t.remove path = .ok t') : t.Loses t' := by
  obtain ⟨full, -, -, rfl⟩ := exists_without_of_remove h
  exact loses_without t full

/-! ## Trees without new files -/

/-- Every file was there before, in the same working directory. -/
structure MakesNoFile (t t' : FileTree) : Prop where
  cwd : t'.cwd = t.cwd
  clock : t.clock ≤ t'.clock
  file : ∀ x d, t'.found? x = some (.file d) → t.found? x = some (.file d)

theorem MakesNoFile.refl (t : FileTree) : t.MakesNoFile t where
  cwd := rfl
  clock := Int.le_refl _
  file _ _ h := h

theorem MakesNoFile.trans (h : t.MakesNoFile t') (h' : t'.MakesNoFile t'') : t.MakesNoFile t'' where
  cwd := h'.cwd.trans h.cwd
  clock := Int.le_trans h.clock h'.clock
  file x d hd := h.file x d (h'.file x d hd)

/-- A new directory is no file. -/
theorem found?_insert_directory {x : String} {d : FileData}
    (h : FileTree.found? { t with entries := t.entries.insert full .directory } x =
      some (.file d)) : t.found? x = some (.file d) := by
  unfold found? at h ⊢
  split at h
  · nomatch Option.some.inj h
  · rename_i hroot
    rw [if_neg hroot]
    rw [Std.TreeMap.getElem?_insert] at h
    split at h
    · nomatch Option.some.inj h
    · exact h

theorem makesNoFile_of_mkdir (h : t.mkdir path here last = .ok (t', full)) : t.MakesNoFile t' := by
  rw [mkdir] at h
  cases hcheck : check path with
  | error reason => rw [hcheck] at h; nomatch h
  | ok _ =>
    rw [hcheck] at h
    cases hfollow : t.follow here last with
    | error reason => rw [hfollow] at h; nomatch h
    | ok place =>
      obtain ⟨full', found⟩ := place
      rw [hfollow] at h
      rcases found with _ | _ | d
      · obtain ⟨rfl, rfl⟩ := Prod.mk.inj (Except.ok.inj h)
        exact ⟨rfl, Int.le_refl _, fun _ _ => found?_insert_directory⟩
      · obtain ⟨rfl, rfl⟩ := Prod.mk.inj (Except.ok.inj h)
        exact .refl t
      · nomatch h

theorem makesNoFile_of_mkdirFrom {fuel : Nat} (h : t.mkdirFrom fuel path = .ok (t', full)) :
    t.MakesNoFile t' := by
  induction fuel generalizing t t' path full with
  | zero => exact absurd h (by simp [mkdirFrom])
  | succ fuel ih =>
    rw [mkdirFrom] at h
    split at h
    · obtain ⟨rfl, -⟩ := Prod.mk.inj (Except.ok.inj h)
      exact .refl t
    · contradiction
    · -- The directory above comes first.
      cases hparent : Path.parent? path with
      | none =>
        simp only [hparent, pure_bind] at h
        split at h
        · rename_i hmkdir
          obtain rfl := Except.ok.inj h
          exact makesNoFile_of_mkdir hmkdir
        · contradiction
      | some parent =>
        cases habove : t.mkdirFrom fuel parent with
        | error fault => simp [hparent, habove, bind, Except.bind] at h
        | ok r =>
          simp only [hparent, habove, bind, Except.bind, pure, Except.pure] at h
          refine (ih habove).trans ?_
          split at h
          · rename_i hmkdir
            obtain rfl := Except.ok.inj h
            exact makesNoFile_of_mkdir hmkdir
          · contradiction

theorem makesNoFile_of_mkdirAll (h : t.mkdirAll path = .ok t') : t.MakesNoFile t' := by
  rw [mkdirAll] at h
  cases hfrom : t.mkdirFrom (path.length + 1) path with
  | error fault => rw [hfrom] at h; nomatch h
  | ok r =>
    rw [hfrom] at h
    obtain rfl := Except.ok.inj h
    exact makesNoFile_of_mkdirFrom hfrom

/-! ## Writing -/

theorem found?_insert_of_ne {x : String} (hne : x ≠ full) (e : FileEntry) (clock : Int) :
    FileTree.found? { t with clock, entries := t.entries.insert full e } x = t.found? x := by
  have hinsert : (t.entries.insert full e)[x]? = t.entries[x]? := by
    rw [Std.TreeMap.getElem?_insert, if_neg]
    simpa using hne.symm
  simp only [FileTree.found?, hinsert]

theorem found?_insert_self (hroot : full ≠ "/") (e : FileEntry) (clock : Int) :
    FileTree.found? { t with clock, entries := t.entries.insert full e } full = some e := by
  have hne : ¬(full == "/") = true := by simpa using hroot
  rw [found?, if_neg hne]
  exact Std.TreeMap.getElem?_insert_self

/-- A file is written where its name leads to, at the current time. -/
theorem exists_of_write {content : String} {size : Nat} (h : t.write path content size = .ok t') :
    ∃ full e, t.locate path = .ok (full, e) ∧
      t' = { t with
        clock := t.clock + 1
        entries := t.entries.insert full (.file { content, size, modified := t.clock }) } := by
  rw [write] at h
  cases hlocate : t.locate path with
  | error reason => rw [hlocate] at h; nomatch h
  | ok place =>
    obtain ⟨full, found⟩ := place
    rw [hlocate] at h
    rcases found with _ | _ | d
    · exact ⟨full, none, rfl, (Except.ok.inj h).symm⟩
    · nomatch h
    · exact ⟨full, some (.file d), rfl, (Except.ok.inj h).symm⟩

end TexEngine.FileTree
