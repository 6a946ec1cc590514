/-
  TexEngine.Proofs.Files.Removal

  File trees that lose an entry.  A name that led to some place still leads there after a file
  was removed from another place, because nobody goes through a file on the way.  What could
  not be found before cannot be found afterwards, whatever was removed.
-/
import Std.Data.TreeMap.Lemmas
import TexEngine.Files.Tree
import TexEngine.Proofs.Files.Names

namespace TexEngine.FileTree

variable {t : FileTree} {x here full path : String} {cs : List String} {c : String}
  {d : FileData} {entry : FileEntry} {e : Option FileEntry}

/-- The tree without what stands under a full name. -/
def without (t : FileTree) (full : String) : FileTree :=
  { t with entries := t.entries.erase full }

theorem found?_without_of_ne {y : String} (hne : y ≠ x) :
    FileTree.found? (t.without x) y = t.found? y := by
  have herase : (t.entries.erase x)[y]? = t.entries[y]? := by
    rw [Std.TreeMap.getElem?_erase, if_neg]
    simpa using hne.symm
  simp only [FileTree.found?, without, herase]

/-- Nothing new is found, and only what stood under the name is lost. -/
theorem found?_without_cases (t : FileTree) (x y : String) :
    FileTree.found? (t.without x) y = t.found? y ∨ FileTree.found? (t.without x) y = none := by
  by_cases hne : y = x
  · subst hne
    unfold found?
    split
    · exact .inl rfl
    · exact .inr Std.TreeMap.getElem?_erase_self
  · exact .inl (found?_without_of_ne hne)

theorem found?_without_self (hx : t.found? x = some (.file d)) :
    FileTree.found? (t.without x) x = none := by
  unfold found? at hx ⊢
  split at hx
  · nomatch Option.some.inj hx
  · rename_i hroot
    rw [if_neg hroot]
    exact Std.TreeMap.getElem?_erase_self

/-! ## Following names -/

/-- Only directories have something in them. -/
theorem follow_cons (h : t.found? here = some .directory) (c : String) (cs : List String) :
    t.follow here (c :: cs) =
      if c == ".." then t.follow (Path.dir here) cs
      else if c.utf8ByteSize > maxName then .error .nameTooLong
      else t.follow (Path.child here c) cs := by
  rw [follow, h]

/-- Where a name leads to, the entry is looked up. -/
theorem found?_of_follow (h : t.follow here cs = .ok (full, e)) : t.found? full = e := by
  fun_induction follow t here cs with
  | case1 here =>
    obtain ⟨rfl, rfl⟩ := Prod.mk.inj (Except.ok.inj h)
    rfl
  | case2 | case3 | case5 => contradiction
  | case4 _ _ _ _ _ ih | case6 _ _ _ _ _ _ ih => exact ih h

/-- Nobody goes through a file, so one that is removed is missing at its own place only. -/
theorem follow_without (hx : t.found? x = some (.file d)) (h : t.follow here cs = .ok (full, e)) :
    (t.without x).follow here cs = .ok (full, FileTree.found? (t.without x) full) := by
  fun_induction follow t here cs with
  | case1 here =>
    obtain ⟨rfl, -⟩ := Prod.mk.inj (Except.ok.inj h)
    rfl
  | case2 | case3 | case5 => contradiction
  | case4 here c cs hhere hup ih =>
    -- A directory that is gone through is not the place of the file.
    have hne : here ≠ x := by
      rintro rfl
      nomatch Option.some.inj (hhere.symm.trans hx)
    rw [follow_cons ((found?_without_of_ne hne).trans hhere), if_pos hup]
    exact ih h
  | case6 here c cs hhere hup hlong ih =>
    have hne : here ≠ x := by
      rintro rfl
      nomatch Option.some.inj (hhere.symm.trans hx)
    rw [follow_cons ((found?_without_of_ne hne).trans hhere), if_neg hup, if_neg hlong]
    exact ih h

/-- What is found after a removal was there before. -/
theorem follow_of_follow_without (h : (t.without x).follow here cs = .ok (full, some entry)) :
    t.follow here cs = .ok (full, some entry) := by
  have hsame {y : String} {found : FileEntry}
      (hfound : FileTree.found? (t.without x) y = some found) : t.found? y = some found :=
    ((found?_without_cases t x y).resolve_right (by simp [hfound])).symm.trans hfound
  fun_induction follow (t.without x) here cs with
  | case1 here =>
    obtain ⟨rfl, hentry⟩ := Prod.mk.inj (Except.ok.inj h)
    rw [follow, hsame hentry]
  | case2 | case3 | case5 => contradiction
  | case4 here c cs hhere hup ih =>
    rw [follow_cons (hsame hhere), if_pos hup]
    exact ih h
  | case6 here c cs hhere hup hlong ih =>
    rw [follow_cons (hsame hhere), if_neg hup, if_neg hlong]
    exact ih h

/-- Nothing is found where the components lead to, or on the way. -/
def Lacks (t : FileTree) (here : String) (cs : List String) : Prop :=
  t.follow here cs = .error .notExist ∨ ∃ full, t.follow here cs = .ok (full, none)

theorem Lacks.without (h : t.Lacks here cs) (x : String) : (t.without x).Lacks here cs := by
  unfold Lacks at h ⊢
  fun_induction follow t here cs with
  | case1 here =>
    obtain ⟨full, hfull⟩ := h.resolve_left nofun
    obtain ⟨rfl, hnone⟩ := Prod.mk.inj (Except.ok.inj hfull)
    obtain hsame | hlost := found?_without_cases t x here
    · exact .inr ⟨here, by rw [follow, hsame, hnone]⟩
    · exact .inr ⟨here, by rw [follow, hlost]⟩
  | case2 here c cs hhere =>
    have hlost : FileTree.found? (t.without x) here = none := by
      obtain hsame | hlost := found?_without_cases t x here
      · rw [hsame, hhere]
      · exact hlost
    exact .inl (by rw [follow, hlost])
  | case3 | case5 => exact absurd h (by simp)
  | case4 here c cs hhere hup ih =>
    -- Either the way goes on as it did, or it ends where a directory was removed.
    obtain hsame | hlost := found?_without_cases t x here
    · rw [follow_cons (hsame.trans hhere), if_pos hup]
      exact ih h
    · exact .inl (by rw [follow, hlost])
  | case6 here c cs hhere hup hlong ih =>
    obtain hsame | hlost := found?_without_cases t x here
    · rw [follow_cons (hsame.trans hhere), if_neg hup, if_neg hlong]
      exact ih h
    · exact .inl (by rw [follow, hlost])

/-! ## Names that lead somewhere -/

/-- A name leads to a place if it can be looked up, and it does not end with a slash if a
    file stands there. -/
theorem locate_eq_ok_iff :
    t.locate path = .ok (full, e) ↔
      check path = .ok () ∧ t.follow (t.start path) (Path.components path) = .ok (full, e) ∧
        ((∃ d, e = some (.file d)) → path.toList.getLast? ≠ some '/') := by
  rw [locate]
  cases check path with
  | error reason => exact iff_of_false nofun (fun h => nomatch h.1)
  | ok _ =>
    cases t.follow (t.start path) (Path.components path) with
    | error reason => exact iff_of_false nofun (fun h => nomatch h.2.1)
    | ok place =>
      obtain ⟨full', found⟩ := place
      by_cases hslash : path.toList.getLast? = some '/'
      all_goals
        rcases found with _ | _ | d <;>
          simp [bind, Except.bind, pure, Except.pure, throw, throwThe, MonadExceptOf.throw, hslash]
        all_goals grind

/-- Nothing stands under a name that is empty or that leads nowhere. -/
theorem stat_eq_notExist_iff :
    t.stat path = .error .notExist ↔
      check path = .error .notExist ∨
        check path = .ok () ∧ t.Lacks (t.start path) (Path.components path) := by
  rw [stat, locate, Lacks]
  cases check path with
  | error reason => simp [bind, Except.bind]
  | ok _ =>
    cases t.follow (t.start path) (Path.components path) with
    | error reason => simp [bind, Except.bind]
    | ok place =>
      obtain ⟨full', found⟩ := place
      by_cases hslash : path.toList.getLast? = some '/'
      all_goals
        rcases found with _ | _ | d <;>
          simp [bind, Except.bind, pure, Except.pure, throw, throwThe, MonadExceptOf.throw, hslash]

theorem stat_of_locate (h : t.locate path = .ok (full, some entry)) : t.stat path = .ok entry := by
  rw [stat, h]
  rfl

theorem locate_of_stat (h : t.stat path = .ok entry) :
    ∃ full, t.locate path = .ok (full, some entry) := by
  rw [stat] at h
  cases hlocate : t.locate path with
  | error reason => rw [hlocate] at h; nomatch h
  | ok place =>
    obtain ⟨full, _ | found⟩ := place
    · rw [hlocate] at h; nomatch h
    · rw [hlocate] at h
      obtain rfl : found = entry := Except.ok.inj h
      exact ⟨full, rfl⟩

theorem found?_of_locate (h : t.locate path = .ok (full, e)) : t.found? full = e :=
  found?_of_follow (locate_eq_ok_iff.mp h).2.1

/-! ## Removal -/

/-- Files can always be removed. -/
theorem remove_of_locate (h : t.locate path = .ok (full, some (.file d))) :
    t.remove path = .ok (t.without full) := by
  rw [remove, h]
  rfl

/-- What is removed is the entry at the place that the name leads to. -/
theorem exists_without_of_remove {t' : FileTree} (h : t.remove path = .ok t') :
    ∃ full entry, t.locate path = .ok (full, some entry) ∧ t' = t.without full := by
  rw [remove] at h
  cases hlocate : t.locate path with
  | error reason => rw [hlocate] at h; nomatch h
  | ok place =>
    obtain ⟨full, found⟩ := place
    rw [hlocate] at h
    rcases found with _ | _ | d
    · nomatch h
    · refine ⟨full, .directory, rfl, ?_⟩
      by_cases hempty : (t.list full).isEmpty
      · simp [bind, Except.bind, pure, Except.pure, hempty] at h
        exact h.symm
      · simp [bind, Except.bind, throw, throwThe, MonadExceptOf.throw, hempty] at h
    · exact ⟨full, .file d, rfl, (Except.ok.inj h).symm⟩

theorem stat_of_stat_without (h : (t.without x).stat path = .ok entry) :
    t.stat path = .ok entry := by
  obtain ⟨full, hlocate⟩ := locate_of_stat h
  obtain ⟨hcheck, hfollow, hslash⟩ := locate_eq_ok_iff.mp hlocate
  exact stat_of_locate (locate_eq_ok_iff.mpr ⟨hcheck, follow_of_follow_without hfollow, hslash⟩)

/-- A file that was removed is not found any more. -/
theorem stat_without_self (h : t.locate path = .ok (x, some (.file d))) :
    (t.without x).stat path = .error .notExist := by
  have hx : t.found? x = some (.file d) := found?_of_locate h
  obtain ⟨hcheck, hfollow, -⟩ := locate_eq_ok_iff.mp h
  have hgone := follow_without hx hfollow
  rw [found?_without_self hx] at hgone
  exact stat_eq_notExist_iff.mpr (.inr ⟨hcheck, .inr ⟨x, hgone⟩⟩)

/-- Every other place is found as before. -/
theorem locate_without (hx : t.found? x = some (.file d)) (h : t.locate path = .ok (full, e))
    (hne : full ≠ x) : (t.without x).locate path = .ok (full, e) := by
  obtain ⟨hcheck, hfollow, hslash⟩ := locate_eq_ok_iff.mp h
  have hkept := follow_without hx hfollow
  rw [found?_without_of_ne hne, found?_of_follow hfollow] at hkept
  exact locate_eq_ok_iff.mpr ⟨hcheck, hkept, hslash⟩

/-! ## Files of one directory -/

theorem exists_of_follow_append (hup : c ≠ "..")
    (h : t.follow here (cs ++ [c]) = .ok (full, e)) :
    ∃ place, t.follow here cs = .ok (place, some .directory) ∧ full = Path.child place c := by
  fun_induction follow t here cs with
  | case1 here =>
    rw [List.nil_append, follow] at h
    split at h
    · contradiction
    · contradiction
    · rename_i hhere
      rw [if_neg (by simpa using hup)] at h
      split at h
      · contradiction
      · rw [follow] at h
        exact ⟨here, by rw [hhere], (Prod.mk.inj (Except.ok.inj h)).1.symm⟩
  | case2 here _ _ hhere | case3 here _ _ _ hhere =>
    rw [List.cons_append, follow, hhere] at h
    contradiction
  | case4 here c' cs hhere hparent ih =>
    rw [List.cons_append, follow_cons hhere, if_pos hparent] at h
    exact ih h
  | case5 here c' cs hhere hparent hlong =>
    rw [List.cons_append, follow_cons hhere, if_neg hparent, if_pos hlong] at h
    contradiction
  | case6 here c' cs hhere hparent hlong ih =>
    rw [List.cons_append, follow_cons hhere, if_neg hparent, if_neg hlong] at h
    exact ih h

/-- Different names in one directory lead to different places. -/
theorem ne_of_locate_join {dir c' full' : String} {e' : Option FileEntry}
    (hc : Path.IsComponent c) (hup : c ≠ "..") (hc' : Path.IsComponent c') (hup' : c' ≠ "..")
    (hne : c ≠ c') (h : t.locate (Path.join dir c) = .ok (full, e))
    (h' : t.locate (Path.join dir c') = .ok (full', e')) : full ≠ full' := by
  have hstart : t.start (Path.join dir c) = t.start (Path.join dir c') := by
    rw [start, start, Path.isAbsolute_join hc hup, Path.isAbsolute_join hc' hup']
  obtain ⟨-, hfollow, -⟩ := locate_eq_ok_iff.mp h
  obtain ⟨-, hfollow', -⟩ := locate_eq_ok_iff.mp h'
  rw [Path.components_join hc hup] at hfollow
  rw [Path.components_join hc' hup', ← hstart] at hfollow'
  obtain ⟨place, hplace, rfl⟩ := exists_of_follow_append hup hfollow
  obtain ⟨place', hplace', rfl⟩ := exists_of_follow_append hup' hfollow'
  obtain rfl : place = place' := (Prod.mk.inj (Except.ok.inj (hplace.symm.trans hplace'))).1
  exact fun hsame => hne (Path.child_inj.mp hsame)

end TexEngine.FileTree
