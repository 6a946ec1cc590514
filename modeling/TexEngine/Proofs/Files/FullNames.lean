/-
  TexEngine.Proofs.Files.FullNames

  Where names lead to.  A full name is a list of components of which none goes up.  Following
  the components of a name from a directory takes the last component of its full name away
  for every "..", as cleaning does, so what a name leads to can be told from the name and the
  working directory alone: no matter which directories there are, a file of a directory has
  its place below the full name of this directory.
-/
import TexEngine.Files.Tree
import TexEngine.Proofs.Files.Names
import TexEngine.Proofs.Files.Removal

namespace TexEngine.Path

variable {p c : String} {cs ds done : List String}

/-! ## Cleaning twice -/

/-- Components that do not go up are kept. -/
theorem resolve_append_of_ne (h : ∀ c ∈ cs, c ≠ "..") (rooted : Bool) (done ds : List String) :
    resolve rooted done (cs ++ ds) = resolve rooted (cs.reverse ++ done) ds := by
  induction cs generalizing done with
  | nil => rfl
  | cons c cs ih =>
    obtain ⟨hc, hcs⟩ := List.forall_mem_cons.mp h
    simp [resolve, hc, ih hcs]

theorem resolve_of_ne (h : ∀ c ∈ cs, c ≠ "..") (rooted : Bool) (done : List String) :
    resolve rooted done cs = done.reverse ++ cs := by
  simpa [resolve] using resolve_append_of_ne h rooted done []

/-- At the root nothing goes up. -/
theorem ne_of_mem_resolve_root (hdone : ∀ d ∈ done, d ≠ "..")
    (h : c ∈ resolve true done cs) : c ≠ ".." := by
  fun_induction resolve true done cs <;> grind

/-- A component and ".." behind it take each other away. -/
theorem resolve_up {d : String} (hd : d ≠ "..") (hdone : ∀ d ∈ done, d ≠ "..")
    (before after : List String) :
    resolve true done (before ++ d :: ".." :: after) = resolve true done (before ++ after) := by
  induction before generalizing done with
  | nil => simp [resolve, hd]
  | cons b before ih =>
    simp only [List.cons_append, resolve]
    split
    · -- What goes up in front of the pair takes a component of `done`, if there is one.
      cases done with
      | nil => simpa using ih (by simp)
      | cons e done =>
        obtain ⟨he, hdone⟩ := List.forall_mem_cons.mp hdone
        simpa [he] using ih hdone
    · exact ih (List.forall_mem_cons.mpr ⟨by simpa using ‹¬(b == "..") = true›, hdone⟩)

/-- What is left of a relative name leads from every directory to the same place as the
    name. -/
theorem resolve_resolve (hdone : ∀ d ∈ done, d ≠ "..") (es cs : List String) :
    resolve true done (resolve false es cs) = resolve true done (es.reverse ++ cs) := by
  fun_induction resolve false es cs with
  | case1 es => rw [List.append_nil]
  | case2 c cs hup d es hd ih => rw [ih]; simp_all
  | case3 c cs hup d es hd ih =>
    rw [ih, List.reverse_cons, List.append_assoc, List.singleton_append, beq_iff_eq.mp hup]
    exact (resolve_up (by simpa using hd) hdone es.reverse cs).symm
  | case4 => contradiction
  | case5 c cs hup hrooted ih => rw [ih]; simp
  | case6 es c cs hup ih => rw [ih]; simp

/-! ## Full names -/

/-- The components of a full name: none of them goes up. -/
def Full (cs : List String) : Prop :=
  ∀ c ∈ cs, IsComponent c ∧ c ≠ ".."

/-- The full name with the given components. -/
def fullName (cs : List String) : String :=
  "/" ++ String.intercalate "/" cs

theorem Full.isComponent (h : Full cs) : ∀ c ∈ cs, IsComponent c :=
  fun c hc => (h c hc).1

theorem Full.ne (h : Full cs) : ∀ c ∈ cs, c ≠ ".." :=
  fun c hc => (h c hc).2

theorem isAbsolute_fullName (cs : List String) : isAbsolute (fullName cs) = true := by
  rw [fullName, isAbsolute_append (by decide)]
  rfl

theorem components_fullName (h : Full cs) : components (fullName cs) = cs := by
  -- The slash in front separates nothing from the first component.
  have hroot := components_append "" (String.intercalate "/" cs)
  rwa [components_intercalate h.isComponent, String.empty_append] at hroot

theorem clean_of_isAbsolute (h : isAbsolute p = true) :
    clean p = fullName (resolve true [] (components p)) := by
  simp [clean, h, fullName]

theorem fullName_eq_root_iff (h : Full cs) : fullName cs = "/" ↔ cs = [] := by
  refine ⟨fun hroot => ?_, fun hnil => by rw [hnil]; rfl⟩
  rw [← components_fullName h, hroot]
  rfl

/-- What is in a directory has one component more. -/
theorem child_fullName (h : Full cs) (c : String) :
    child (fullName cs) c = fullName (cs ++ [c]) := by
  rw [child]
  split
  · rename_i hroot
    rw [(fullName_eq_root_iff h).mp (by simpa using hroot), List.nil_append, fullName,
      String.intercalate_singleton]
  · rename_i hroot
    have hne : cs ≠ [] := fun hnil => hroot (by simpa using (fullName_eq_root_iff h).mpr hnil)
    rw [fullName, fullName, String.intercalate_append_of_ne_nil hne (by simp),
      String.intercalate_singleton]
    simp [String.append_assoc]

theorem split_of_slash (hc : '/' ∉ c.toList) (a : String) :
    split (a ++ "/" ++ c) = (a ++ "/", c) := by
  have hback : (a ++ "/" ++ c).toList.reverse = c.toList.reverse ++ '/' :: a.toList.reverse := by
    simp [String.toList_append]
  have htail : (a ++ "/" ++ c).toList.reverse.takeWhile (· != '/') = c.toList.reverse := by
    rw [hback, List.takeWhile_append_of_pos, List.takeWhile_cons_of_neg (by simp), List.append_nil]
    intro x hx
    rw [bne_iff_ne]
    rintro rfl
    exact hc (List.mem_reverse.mp hx)
  have hfront : (a ++ "/" ++ c).length - c.toList.length = (a ++ "/").toList.length := by
    rw [String.length_append (a ++ "/"), String.length_toList, Nat.add_sub_cancel,
      String.length_toList]
  have happend : (a ++ "/" ++ c).toList = (a ++ "/").toList ++ c.toList := String.toList_append
  rw [split, htail, List.reverse_reverse, hfront, happend, List.take_left, String.ofList_toList,
    String.ofList_toList]

/-- An entry of a directory has its own name. -/
theorem base_child (hc : IsComponent c) (place : String) : base (child place c) = c := by
  have hlast (a : String) : base (a ++ "/" ++ c) = c := by
    have hne : ¬(a ++ "/" ++ c).isEmpty := by simp
    have hback : (a ++ "/" ++ c).toList.reverse.dropWhile (· == '/') =
        (a ++ "/" ++ c).toList.reverse := by
      rw [String.toList_append, List.reverse_append]
      cases hreverse : c.toList.reverse with
      | nil => exact absurd hc.empty (by simpa using hreverse)
      | cons x xs =>
        have hx : x ∈ c.toList := by
          rw [← List.mem_reverse, hreverse]
          exact List.mem_cons_self
        have hslash : ¬(x == '/') = true := by
          rw [beq_iff_eq]
          rintro rfl
          exact hc.slash hx
        rw [List.cons_append, List.dropWhile_cons_of_neg (p := (· == '/')) hslash]
    simp only [base]
    rw [if_neg hne, hback, List.reverse_reverse, String.ofList_toList, if_neg hne,
      split_of_slash hc.slash]
  rw [child]
  split
  · simpa using hlast ""
  · exact hlast place

theorem child_ne_root (hc : IsComponent c) (place : String) : child place c ≠ "/" := by
  intro hroot
  have hbase := base_child hc place
  rw [hroot] at hbase
  exact hc.slash (hbase ▸ by decide)

/-- The directory of a full name has all of its components but the last. -/
theorem dir_fullName (h : Full (cs ++ [c])) : dir (fullName (cs ++ [c])) = fullName cs := by
  have hcs : Full cs := fun d hd => h d (List.mem_append_left _ hd)
  obtain ⟨hc, -⟩ := h c (by simp)
  have hfront (a : String) (ha : components a = cs) (hroot : isAbsolute (a ++ "/")) :
      dir (a ++ "/" ++ c) = fullName cs := by
    have hslash := components_append a ""
    rw [String.append_empty, ha] at hslash
    rw [dir, split_of_slash hc.slash, clean_of_isAbsolute hroot, hslash]
    simp [components, resolve_of_ne hcs.ne]
  rw [← child_fullName hcs, child]
  split
  · rename_i hroot
    have hnil := (fullName_eq_root_iff hcs).mp (by simpa using hroot)
    exact hfront "" (by rw [hnil]; rfl) rfl
  · refine hfront (fullName cs) (components_fullName hcs) ?_
    rw [isAbsolute_append (by simp [fullName]), isAbsolute_fullName]

/-- A clean full name is kept as it is. -/
theorem clean_fullName (h : Full cs) : clean (fullName cs) = fullName cs := by
  rw [clean_of_isAbsolute (isAbsolute_fullName cs), components_fullName h,
    resolve_of_ne h.ne, List.reverse_nil, List.nil_append]

/-- A name, seen from a directory, has what is left of the components of both. -/
theorem absolute_fullName (h : Full cs) (dir : String) :
    absolute (fullName cs) dir =
      fullName (resolve true (if isAbsolute dir then [] else cs.reverse) (components dir)) := by
  rw [absolute]
  split
  · exact clean_of_isAbsolute ‹_›
  · have hne : ¬(fullName cs).isEmpty := by simp [fullName]
    rw [join, if_neg hne]
    split
    · rename_i hdir
      rw [String.isEmpty_iff.mp hdir, clean_fullName h]
      simp [components, resolve]
    · rw [clean_of_isAbsolute, components_append, components_fullName h,
        resolve_append_of_ne h.ne, List.append_nil]
      rw [String.append_assoc, isAbsolute_append (by simp [fullName]), isAbsolute_fullName]

end TexEngine.Path

namespace TexEngine.FileTree

open TexEngine.Path

variable {t : FileTree} {c dir full : String} {cs ds : List String} {e : Option FileEntry}

/-! ## Where names lead to -/

/-- Directories are followed the way names are cleaned. -/
theorem full_of_follow (hcs : Full cs) (hds : ∀ d ∈ ds, IsComponent d)
    (h : t.follow (fullName cs) ds = .ok (full, e)) :
    full = fullName (resolve true cs.reverse ds) := by
  induction ds generalizing cs with
  | nil =>
    obtain ⟨rfl, -⟩ := Prod.mk.inj (Except.ok.inj h)
    simp [resolve]
  | cons d ds ih =>
    obtain ⟨hd, hds⟩ := List.forall_mem_cons.mp hds
    rw [follow] at h
    split at h
    · contradiction
    · contradiction
    · split at h
      · -- Above the root is the root; elsewhere the last component is taken off.
        rename_i hup
        obtain rfl | ⟨cs, c, rfl⟩ := cs.eq_nil_or_concat'
        · simpa [resolve, hup] using ih hcs hds h
        · rw [dir_fullName hcs] at h
          have hfront : Full cs := fun d hd => hcs d (List.mem_append_left _ hd)
          simpa [resolve, hup, hcs.ne c (by simp)] using ih hfront hds h
      · rename_i hup
        split at h
        · contradiction
        · rw [child_fullName hcs] at h
          have hlonger : Full (cs ++ [d]) :=
            List.forall_mem_append.mpr ⟨hcs, by simpa using ⟨hd, by simpa using hup⟩⟩
          simpa [resolve, hup] using ih hlonger hds h

/-- What a name in a directory leads to is in that directory, as it is seen from the working
    directory. -/
theorem full_of_locate_join (hcwd : Full cs) (ht : t.cwd = fullName cs) (hc : IsComponent c)
    (hup : c ≠ "..") (h : t.locate (join dir c) = .ok (full, e)) :
    full = child (absolute t.cwd dir) c := by
  obtain ⟨-, hfollow, -⟩ := locate_eq_ok_iff.mp h
  rw [components_join hc hup, start, isAbsolute_join hc hup] at hfollow
  obtain ⟨place, hplace, rfl⟩ := exists_of_follow_append hup hfollow
  have hcomponents : ∀ d ∈ cleaned dir, IsComponent d := fun _ => isComponent_of_mem_cleaned
  congr 1
  rw [ht, absolute_fullName hcwd]
  cases hroot : isAbsolute dir with
  | true =>
    -- The way starts at the root, and the name was cleaned as one that does.
    rw [hroot, if_pos rfl] at hplace
    have hclean : ∀ d ∈ cleaned dir, d ≠ ".." := by
      rw [cleaned, hroot]
      exact fun d hd => ne_of_mem_resolve_root (by simp) hd
    have hempty : Full [] := by simp [Full]
    rw [full_of_follow hempty hcomponents hplace, List.reverse_nil, resolve_of_ne hclean,
      if_pos rfl, cleaned, hroot]
    rfl
  | false =>
    -- What is left of a relative name may go up, and does so from the working directory.
    rw [hroot, if_neg Bool.false_ne_true, ht] at hplace
    have hne : ∀ c ∈ cs.reverse, c ≠ ".." := by simpa using hcwd.ne
    rw [full_of_follow hcwd hcomponents hplace, cleaned, hroot, resolve_resolve hne,
      if_neg Bool.false_ne_true]
    rfl

end TexEngine.FileTree
