/-
  TexEngine.Proofs.Files.Names

  The components of a name.  Cleaning a name keeps its components apart from those that ".."
  takes away, so a name that is joined to a directory has the components of the directory
  and one more behind them.
-/
import Mathlib.Data.List.Basic
import TexEngine.Files.Path

namespace TexEngine.Path

variable {p dir c : String} {cs done : List String} {rooted : Bool}

/-! ## Components -/

/-- Text that is a component of a name: it is not left out, and not taken apart. -/
structure IsComponent (c : String) : Prop where
  slash : '/' ∉ c.toList
  empty : c ≠ ""
  dot : c ≠ "."

theorem not_mem_of_mem_splitOn {x : Char} {xs part : List Char} (h : part ∈ xs.splitOn x) :
    x ∉ part := by
  induction xs generalizing part with
  | nil => simp_all
  | cons y xs ih =>
    rw [List.splitOn_cons_eq_if_modifyHead] at h
    split at h
    · obtain rfl | hpart := List.mem_cons.mp h
      · exact List.not_mem_nil
      · exact ih hpart
    · rename_i hother
      cases hsplit : xs.splitOn x with
      | nil => exact absurd hsplit (List.splitOn_ne_nil _ _)
      | cons first rest =>
        rw [hsplit] at h
        obtain rfl | hpart := List.mem_cons.mp h
        · have hfirst : x ∉ first := ih (by rw [hsplit]; exact List.mem_cons_self)
          exact List.not_mem_cons_of_ne_of_not_mem (fun hxy => hother (by simp [hxy])) hfirst
        · exact ih (by rw [hsplit]; exact List.mem_cons_of_mem _ hpart)

theorem isComponent_of_mem_components (h : c ∈ components p) : IsComponent c := by
  obtain ⟨hmem, hkept⟩ := List.mem_filter.mp h
  obtain ⟨part, hpart, rfl⟩ := List.mem_map.mp hmem
  refine ⟨?_, ?_, ?_⟩
  · rw [String.toList_ofList]
    exact not_mem_of_mem_splitOn hpart
  · intro hempty
    simp [hempty] at hkept
  · intro hdot
    simp [hdot] at hkept

theorem components_of_isComponent (h : IsComponent c) : components c = [c] := by
  rw [components, List.splitOn_eq_singleton h.slash]
  simp [h.empty, h.dot]

/-- A slash separates components. -/
theorem components_append (a b : String) :
    components (a ++ "/" ++ b) = components a ++ components b := by
  have hsplit : (a ++ "/" ++ b).toList.splitOn '/' =
      a.toList.splitOn '/' ++ b.toList.splitOn '/' := by
    rw [String.toList_append, String.toList_append, List.append_assoc]
    exact List.splitOn_append_cons_self _ _
  rw [components, hsplit, List.map_append, List.filter_append, components, components]

theorem components_intercalate (h : ∀ c ∈ cs, IsComponent c) :
    components (String.intercalate "/" cs) = cs := by
  induction cs with
  | nil => rfl
  | cons c cs ih =>
    obtain ⟨hc, hcs⟩ := List.forall_mem_cons.mp h
    by_cases hnil : cs = []
    · rw [hnil, String.intercalate_singleton, components_of_isComponent hc]
    · rw [String.intercalate_cons_of_ne_nil hnil, components_append,
        components_of_isComponent hc, ih hcs, List.singleton_append]

/-! ## Cleaning -/

theorem mem_resolve (h : c ∈ resolve rooted done cs) : c ∈ done ∨ c ∈ cs := by
  fun_induction resolve rooted done cs <;> grind

/-- A component that does not go up stays at the end. -/
theorem resolve_append (hup : c ≠ "..") (rooted : Bool) (done cs : List String) :
    resolve rooted done (cs ++ [c]) = resolve rooted done cs ++ [c] := by
  fun_induction resolve rooted done cs <;> simp_all [resolve]

/-- The components that are left of a directory when its name is cleaned. -/
def cleaned (p : String) : List String :=
  resolve (isAbsolute p) [] (components p)

theorem isComponent_of_mem_cleaned (h : c ∈ cleaned p) : IsComponent c :=
  isComponent_of_mem_components ((mem_resolve h).resolve_left List.not_mem_nil)

theorem components_clean (p : String) : components (clean p) = cleaned p := by
  have hbody : components (String.intercalate "/" (cleaned p)) = cleaned p :=
    components_intercalate fun _ => isComponent_of_mem_cleaned
  simp only [clean]
  split
  · -- The slash in front separates nothing from the first component.
    have hroot := components_append "" (String.intercalate "/" (cleaned p))
    rwa [hbody, String.empty_append] at hroot
  · split
    · -- Without components the name is ".", which has none either.
      rename_i hempty
      rw [← hbody, cleaned, String.isEmpty_iff.mp hempty]
      rfl
    · exact hbody

theorem isAbsolute_append {a : String} (h : a ≠ "") (b : String) :
    isAbsolute (a ++ b) = isAbsolute a := by
  rw [isAbsolute, isAbsolute, String.toList_append,
    List.head?_append_of_ne_nil _ (by simpa using h)]

theorem isAbsolute_of_isComponent (h : IsComponent c) : isAbsolute c = false := by
  have hslash := h.slash
  rw [isAbsolute]
  cases hc : c.toList with
  | nil => rfl
  | cons x xs =>
    rw [hc] at hslash
    simpa using Ne.symm (List.ne_of_not_mem_cons hslash)

theorem isAbsolute_intercalate (h : ∀ c ∈ cs, IsComponent c) :
    isAbsolute (String.intercalate "/" cs) = false := by
  cases cs with
  | nil => rfl
  | cons c cs =>
    obtain ⟨hc, -⟩ := List.forall_mem_cons.mp h
    by_cases hnil : cs = []
    · rw [hnil, String.intercalate_singleton, isAbsolute_of_isComponent hc]
    · rw [String.intercalate_cons_of_ne_nil hnil, String.append_assoc, isAbsolute_append hc.empty,
        isAbsolute_of_isComponent hc]

theorem isAbsolute_clean (p : String) : isAbsolute (clean p) = isAbsolute p := by
  have hbody : isAbsolute (String.intercalate "/" (cleaned p)) = false :=
    isAbsolute_intercalate fun _ => isComponent_of_mem_cleaned
  simp only [clean]
  split
  · rename_i hroot
    rw [hroot, isAbsolute_append (by decide)]
    rfl
  · rename_i hroot
    rw [Bool.not_eq_true] at hroot
    split
    · exact hroot.symm
    · exact hbody.trans hroot.symm

/-! ## Names in a directory -/

theorem clean_of_isComponent (hc : IsComponent c) (hup : c ≠ "..") : clean c = c := by
  simp [clean, isAbsolute_of_isComponent hc, components_of_isComponent hc, resolve, hup, hc.empty]

theorem join_of_isComponent (hc : IsComponent c) (hup : c ≠ "..") (dir : String) :
    join dir c = if dir.isEmpty then c else clean (dir ++ "/" ++ c) := by
  have hempty : ¬c.isEmpty := by simpa using hc.empty
  rw [join, if_neg hempty, if_neg hempty, clean_of_isComponent hc hup]

/-- The components of the directory come first. -/
theorem components_join (hc : IsComponent c) (hup : c ≠ "..") (dir : String) :
    components (join dir c) = cleaned dir ++ [c] := by
  rw [join_of_isComponent hc hup]
  split
  · rename_i hdir
    rw [String.isEmpty_iff.mp hdir, components_of_isComponent hc]
    rfl
  · rename_i hdir
    have hroot : isAbsolute (dir ++ "/" ++ c) = isAbsolute dir := by
      rw [String.append_assoc, isAbsolute_append (by simpa using hdir)]
    rw [components_clean, cleaned, hroot, components_append, components_of_isComponent hc,
      resolve_append hup, cleaned]

theorem isAbsolute_join (hc : IsComponent c) (hup : c ≠ "..") (dir : String) :
    isAbsolute (join dir c) = isAbsolute dir := by
  rw [join_of_isComponent hc hup]
  split
  · rename_i hdir
    rw [String.isEmpty_iff.mp hdir, isAbsolute_of_isComponent hc]
    rfl
  · rename_i hdir
    rw [isAbsolute_clean, String.append_assoc, isAbsolute_append (by simpa using hdir)]

theorem child_inj {place c' : String} : child place c = child place c' ↔ c = c' := by
  rw [child, child]
  split <;> simp [← String.toList_inj]

/-- The last part of a name has no slash, except that of the root. -/
theorem slash_not_mem_base (h : base p ≠ "/") : '/' ∉ (base p).toList := by
  rw [base] at h ⊢
  dsimp only at h ⊢
  split
  · decide
  · rename_i hempty
    rw [if_neg hempty] at h
    split
    · rename_i hroot
      exact absurd (if_pos hroot) h
    · simp only [split, String.toList_ofList, List.mem_reverse]
      intro hslash
      simpa using List.all_eq_true.mp List.all_takeWhile '/' hslash

end TexEngine.Path
