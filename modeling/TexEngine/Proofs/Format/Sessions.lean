/-
  TexEngine.Proofs.Format.Sessions

  A directory of formats over several sessions.  In every session the directory is opened as
  a store, formats are written and loaded, and the store is closed.  What one session leaves
  to the next is the tree alone, and there every format has the time when it was written; so
  formats that are not used in a session are removed in the order in which they were written,
  whatever was loaded in the sessions before.
-/
import Mathlib.Data.List.Pairwise
import TexEngine.Proofs.Format.Listing

namespace TexEngine.FormatStore

/-! ## Uses of formats -/

/-- A format was written, or loaded, at some time. -/
structure Use where
  key : String
  time : Int
  written : Bool
  deriving DecidableEq, Repr

/-- When a format was used last; the latest use stands first. -/
def lastUse? (uses : List Use) (key : String) : Option Int :=
  (uses.find? fun u => u.key = key).map Use.time

/-- When a format was written last. -/
def lastWrite? (uses : List Use) (key : String) : Option Int :=
  (uses.find? fun u => u.key = key ∧ u.written).map Use.time

/-- The uses are in order, and all of them have ended. -/
structure Ordered (uses : List Use) (now : Int) : Prop where
  order : uses.Pairwise fun u v => v.time < u.time
  ended : ∀ u ∈ uses, u.time < now

variable {uses : List Use} {u : Use} {now now' m n : Int} {key key' f g dir : String}

theorem Ordered.later (h : Ordered uses now) (hnow : now ≤ now') : Ordered uses now' where
  order := h.order
  ended u hu := Int.lt_of_lt_of_le (h.ended u hu) hnow

/-- Another use makes the list longer. -/
theorem Ordered.cons (h : Ordered uses now) (hnow : now < now') (key : String) (written : Bool) :
    Ordered (⟨key, now, written⟩ :: uses) now' where
  order := List.pairwise_cons.mpr ⟨h.ended, h.order⟩
  ended := List.forall_mem_cons.mpr ⟨hnow, fun u hu => Int.lt_trans (h.ended u hu) hnow⟩

/-- At any time there was only one use. -/
theorem Ordered.eq_of_time (h : Ordered uses now) {u v : Use} (hu : u ∈ uses) (hv : v ∈ uses)
    (htime : u.time = v.time) : u = v := by
  by_contra hne
  have hdistinct : uses.Pairwise fun u v => u.time ≠ v.time :=
    h.order.imp fun hlt heq => absurd heq (Int.ne_of_gt hlt)
  have hsymm : Std.Symm fun u v : Use => u.time ≠ v.time := ⟨fun _ _ => Ne.symm⟩
  exact hdistinct.forall hu hv hne htime

theorem mem_of_lastWrite? (h : lastWrite? uses key = some n) :
    ∃ u ∈ uses, u.key = key ∧ u.time = n := by
  obtain ⟨u, hu, rfl⟩ := Option.map_eq_some_iff.mp h
  have hkey := List.find?_some hu
  simp only [decide_eq_true_eq] at hkey
  exact ⟨u, List.mem_of_find?_eq_some hu, hkey.1, rfl⟩

/-- Different formats were written at different times. -/
theorem Ordered.lastWrite?_ne (h : Ordered uses now) (hne : f ≠ g)
    (hf : lastWrite? uses f = some m) (hg : lastWrite? uses g = some n) : m ≠ n := by
  rintro rfl
  obtain ⟨u, hu, rfl, rfl⟩ := mem_of_lastWrite? hf
  obtain ⟨v, hv, rfl, htime⟩ := mem_of_lastWrite? hg
  exact hne (congrArg Use.key (h.eq_of_time hu hv htime.symm))

/-- Nothing is written after it was used last. -/
theorem Ordered.exists_lastUse? (h : Ordered uses now) (hwrite : lastWrite? uses key = some n) :
    ∃ l, lastUse? uses key = some l ∧ n ≤ l := by
  induction uses with
  | nil => simp [lastWrite?] at hwrite
  | cons u uses ih =>
    obtain ⟨v, hv, hvkey, rfl⟩ := mem_of_lastWrite? hwrite
    by_cases hkey : u.key = key
    · -- The latest use is no earlier than any other one.
      refine ⟨u.time, by simp [lastUse?, hkey], ?_⟩
      obtain rfl | hv := List.mem_cons.mp hv
      · exact Int.le_refl _
      · exact Int.le_of_lt (List.rel_of_pairwise_cons h.order hv)
    · have hrest : Ordered uses now :=
        ⟨h.order.of_cons, (List.forall_mem_cons.mp h.ended).2⟩
      simpa [lastUse?, hkey] using ih hrest (by simpa [lastWrite?, hkey] using hwrite)

/-! ## Sessions -/

/-- A directory of formats in use: the open store, the tree, the uses in the sessions before
    and the uses since the store was opened, each with the latest one first. -/
structure Session where
  store : FormatStore
  tree : FileTree
  past : List Use
  uses : List Use

namespace Session

/-- All uses, the latest one first. -/
def history (r : Session) : List Use :=
  r.uses ++ r.past

/-- What stands where the format with a key belongs. -/
def found? (r : Session) (dir key : String) : Option FileEntry :=
  r.tree.found? (place r.tree.cwd dir key)

/-- What sessions on a directory can lead to.  At first the directory has formats that were
    written at known times, or none.  Time can pass in a session, and between two sessions. -/
inductive Reached (dir : String) : Session → Prop
  | first {t : FileTree} {o : Outcome FormatStore} {cs : List String} {past : List Use}
      (hcs : Path.Full cs) (hcwd : t.cwd = Path.fullName cs) (hpast : Ordered past t.clock)
      (hwritten : ∀ key d, '/' ∉ key.toList →
        t.found? (place t.cwd dir key) = some (.file d) → lastWrite? past key = some d.modified)
      (hopen : openIn t dir = .ok o) : Reached dir ⟨o.value, o.tree, past, []⟩
  | put {r : Session} {img : Image} {s : FormatStore} {t : FileTree} (h : Reached dir r)
      (hput : r.store.put r.tree img = .ok (s, t)) :
      Reached dir ⟨s, t, r.past, ⟨FormatStore.key img.job, r.tree.clock, true⟩ :: r.uses⟩
  | get {r : Session} {name : String} {img : Image} {s : FormatStore} {t : FileTree}
      (h : Reached dir r) (hget : r.store.get r.tree name = .ok (img, s, t)) :
      Reached dir ⟨s, t, r.past, ⟨FormatStore.key name, r.tree.clock, false⟩ :: r.uses⟩
  | wait {r : Session} {clock : Int} (h : Reached dir r) (hclock : r.tree.clock ≤ clock) :
      Reached dir { r with tree := { r.tree with clock } }
  | reopen {r : Session} {limit : Int} {o : Outcome FormatStore} (h : Reached dir r)
      (hlimit : 0 ≤ limit) (hopen : openIn (r.store.close r.tree limit).tree dir = .ok o) :
      Reached dir ⟨o.value, o.tree, r.history, []⟩

/-- What holds in every session.  A file has the time when it was written; the store knows it
    by this time until it is used, and afterwards by a time in this session. -/
structure Sound (dir : String) (r : Session) : Prop where
  seen : r.store.dir = dir
  cwd : ∃ cs, Path.Full cs ∧ r.tree.cwd = Path.fullName cs
  named : r.store.Named
  ordered : Ordered r.history r.tree.clock
  opened : r.store.opened ≤ r.tree.clock
  files : ∀ key ∈ r.store.files, r.found? dir key ≠ some .directory
  written : ∀ key d, '/' ∉ key.toList → r.found? dir key = some (.file d) →
    lastWrite? r.history key = some d.modified
  known : ∀ key d, '/' ∉ key.toList → r.found? dir key = some (.file d) →
    ∃ info, r.store.files[key]? = some info ∧
      ((∃ u ∈ r.uses, u.key = key) → r.store.opened ≤ info.used) ∧
      ((∀ u ∈ r.uses, u.key ≠ key) → info.used = d.modified)

variable {r : Session} {t : FileTree} {o : Outcome FormatStore} {s : FormatStore} {limit : Int}
variable {img : Image} {name : String} {d : FileData}

/-- A store that was opened knows the files by the time when they were written. -/
theorem sound_of_opening {past : List Use} (h : Opening t dir o)
    (hcwd : ∃ cs, Path.Full cs ∧ t.cwd = Path.fullName cs) (hpast : Ordered past t.clock)
    (hwritten : ∀ key d, '/' ∉ key.toList →
      t.found? (place t.cwd dir key) = some (.file d) → lastWrite? past key = some d.modified) :
    Sound dir ⟨o.value, o.tree, past, []⟩ where
  seen := h.seen
  cwd := by rwa [h.cwd]
  named := h.named
  ordered := hpast.later (Int.le_trans h.opened (Int.le_of_lt h.clock))
  opened := Int.le_of_lt h.clock
  files key hkey := by
    rw [found?, h.cwd]
    exact h.files key hkey
  written key d hkey hd := by
    rw [found?, h.cwd] at hd
    exact hwritten key d hkey (h.listed key d hkey hd).1
  known key d hkey hd := by
    rw [found?, h.cwd] at hd
    exact ⟨_, (h.listed key d hkey hd).2, by simp, fun _ => rfl⟩

/-- The name of a format leads to its place. -/
theorem Sound.full_of_locate (h : Sound dir r) (hkey : '/' ∉ key.toList) {full : String}
    {e : Option FileEntry} (hlocate : r.tree.locate (r.store.path key) = .ok (full, e)) :
    full = place r.tree.cwd dir key := by
  obtain ⟨cs, hcs, hcwd⟩ := h.cwd
  rw [FormatStore.path, h.seen] at hlocate
  exact FileTree.full_of_locate_join hcs hcwd (isComponent_file hkey)
    (file_ne_of_length (by decide)) hlocate

theorem Sound.found?_of_stat (h : Sound dir r) (hkey : '/' ∉ key.toList) {e : FileEntry}
    (hstat : r.tree.stat (r.store.path key) = .ok e) : r.found? dir key = some e := by
  obtain ⟨full, hlocate⟩ := FileTree.locate_of_stat hstat
  obtain rfl := h.full_of_locate hkey hlocate
  exact FileTree.found?_of_locate hlocate

/-! ## One step -/

/-- A format was used: nothing is changed but its file and its table entry, and the store
    knows that it was used in this session. -/
structure Touched (dir : String) (r : Session) (key : String) (written : Bool)
    (s : FormatStore) (t : FileTree) : Prop where
  seen : s.dir = r.store.dir
  opened : s.opened = r.store.opened
  named : s.Named
  cwd : t.cwd = r.tree.cwd
  clock : r.tree.clock < t.clock
  other : ∀ key', key' ≠ key → s.files[key']? = r.store.files[key']? ∧
    t.found? (place r.tree.cwd dir key') = r.found? dir key'
  directory : key ∈ s.files → t.found? (place r.tree.cwd dir key) ≠ some .directory
  file : ∀ d, t.found? (place r.tree.cwd dir key) = some (.file d) →
    (if written then d.modified = r.tree.clock else r.found? dir key = some (.file d)) ∧
      ∃ info, s.files[key]? = some info ∧ r.store.opened ≤ info.used

theorem Sound.use (h : Sound dir r) {written : Bool} (htouch : Touched dir r key written s t) :
    Sound dir ⟨s, t, r.past, ⟨key, r.tree.clock, written⟩ :: r.uses⟩ where
  seen := htouch.seen.trans h.seen
  cwd := by
    rw [htouch.cwd]
    exact h.cwd
  named := htouch.named
  ordered := h.ordered.cons htouch.clock key written
  opened := by
    rw [htouch.opened]
    exact Int.le_trans h.opened (Int.le_of_lt htouch.clock)
  files key' hkey' := by
    rw [found?, htouch.cwd]
    by_cases hsame : key' = key
    · subst hsame
      exact htouch.directory hkey'
    · obtain ⟨htable, htree⟩ := htouch.other key' hsame
      rw [htree]
      refine h.files key' ?_
      rwa [Std.TreeMap.mem_iff_isSome_getElem?, ← htable, ← Std.TreeMap.mem_iff_isSome_getElem?]
  written key' d hkey' hd := by
    rw [found?, htouch.cwd] at hd
    by_cases hsame : key' = key
    · -- A format that is written has the time of this use, one that is loaded has the old one.
      subst hsame
      obtain ⟨htime, -⟩ := htouch.file d hd
      cases written with
      | true => simpa [history, lastWrite?] using htime.symm
      | false => simpa [history, lastWrite?] using h.written key' d hkey' htime
    · rw [(htouch.other key' hsame).2] at hd
      simpa [history, lastWrite?, Ne.symm hsame] using h.written key' d hkey' hd
  known key' d hkey' hd := by
    rw [found?, htouch.cwd] at hd
    by_cases hsame : key' = key
    · subst hsame
      obtain ⟨-, info, hinfo, hused⟩ := htouch.file d hd
      exact ⟨info, hinfo, fun _ => htouch.opened ▸ hused, fun hunused => by simp at hunused⟩
    · -- This use does not count for another format.
      obtain ⟨htable, htree⟩ := htouch.other key' hsame
      rw [htree] at hd
      obtain ⟨info, hinfo, hused, hunused⟩ := h.known key' d hkey' hd
      refine ⟨info, htable.trans hinfo, ?_, fun hnone => hunused ?_⟩
      · rintro ⟨u, hu, rfl⟩
        obtain rfl | hu := List.mem_cons.mp hu
        · exact absurd rfl hsame
        · exact htouch.opened ▸ hused ⟨u, hu, rfl⟩
      · exact (List.forall_mem_cons.mp hnone).2

/-- Writing gives a file the current time. -/
theorem Sound.touched_put (h : Sound dir r) (hput : r.store.put r.tree img = .ok (s, t)) :
    Touched dir r (FormatStore.key img.job) true s t := by
  have hkey := slash_not_mem_key img.job
  have hnamed := h.named.put hput
  obtain ⟨full, e, hlocate, rfl, rfl⟩ := exists_of_put hput
  obtain rfl := h.full_of_locate hkey hlocate
  have hself := FileTree.found?_insert_self (t := r.tree)
    (Path.child_ne_root (isComponent_file hkey) (Path.absolute r.tree.cwd dir))
  refine ⟨rfl, rfl, hnamed, rfl, by dsimp only; omega, fun key' hne => ⟨?_, ?_⟩, fun _ => ?_,
    fun d hd => ?_⟩
  · rw [Std.TreeMap.getElem?_insert, if_neg]
    simpa using hne.symm
  · exact FileTree.found?_insert_of_ne (mt place_inj.mp hne) _ _
  · rw [place, hself]
    simp
  · rw [place, hself] at hd
    obtain rfl := FileEntry.file.inj (Option.some.inj hd)
    refine ⟨rfl, _, Std.TreeMap.getElem?_insert_self, ?_⟩
    exact Int.le_trans h.opened (Int.le_of_lt (Int.lt_succ _))

/-- Loading leaves a file as it is. -/
theorem Sound.touched_get (h : Sound dir r) (hget : r.store.get r.tree name = .ok (img, s, t)) :
    Touched dir r (FormatStore.key name) false s t := by
  have hnamed := h.named.get hget
  obtain ⟨rfl, rfl⟩ := eq_of_get hget
  refine ⟨rfl, rfl, hnamed, rfl, Int.lt_succ _, fun key' hne => ⟨?_, rfl⟩, fun hmem => ?_,
    fun d hd => ?_⟩
  · rw [Std.TreeMap.getElem?_modify, if_neg]
    simpa using hne.symm
  · exact h.files _ (Std.TreeMap.mem_modify.mp hmem)
  · obtain ⟨info, hinfo, -, -⟩ := h.known _ d (slash_not_mem_key name) hd
    refine ⟨hd, { info with used := r.tree.clock }, ?_, h.opened⟩
    rw [Std.TreeMap.getElem?_modify, if_pos (by simp), hinfo]
    rfl

theorem Sound.wait (h : Sound dir r) {clock : Int} (hclock : r.tree.clock ≤ clock) :
    Sound dir { r with tree := { r.tree with clock } } where
  seen := h.seen
  cwd := h.cwd
  named := h.named
  ordered := h.ordered.later hclock
  opened := Int.le_trans h.opened hclock
  files := h.files
  written := h.written
  known := h.known

/-! ## From one session to the next -/

theorem loses_removeAll (s : FormatStore) (t : FileTree) (files : List (String × StoredFormat)) :
    t.Loses (s.removeAll t files).2 := by
  fun_induction removeAll s t files with
  | case1 t => exact .refl t
  | case2 t f rest t' hremove ih => exact (FileTree.loses_of_remove hremove).trans ih
  | case3 t f rest reason hremove ih => exact ih

theorem close_tree_of_nonneg (hlimit : 0 ≤ limit) (s : FormatStore) (t : FileTree) :
    (s.close t limit).tree = (s.removeAll t (s.pruned s.byUse limit).1).2 := by
  rw [close, closeAlong_tree, if_neg (Int.not_lt.mpr hlimit)]

/-- The next session takes over the files that were not removed. -/
theorem Sound.reopen (h : Sound dir r) (hlimit : 0 ≤ limit)
    (hopen : openIn (r.store.close r.tree limit).tree dir = .ok o) :
    Sound dir ⟨o.value, o.tree, r.history, []⟩ := by
  rw [close_tree_of_nonneg hlimit] at hopen
  -- The table is forgotten; only what is left of the tree counts.
  have hloses := loses_removeAll r.store r.tree (r.store.pruned r.store.byUse limit).1
  refine sound_of_opening (opening_of_openIn hopen) ?_ ?_ ?_
  · rw [hloses.cwd]
    exact h.cwd
  · rw [hloses.clock]
    exact h.ordered
  · intro key d hkey hd
    rw [hloses.cwd] at hd
    exact h.written key d hkey (hloses.entry _ _ hd)

theorem Reached.sound (h : Reached dir r) : Sound dir r := by
  induction h with
  | first hcs hcwd hpast hwritten hopen =>
    exact sound_of_opening (opening_of_openIn hopen) ⟨_, hcs, hcwd⟩ hpast hwritten
  | put _ hput ih => exact ih.use (ih.touched_put hput)
  | get _ hget ih => exact ih.use (ih.touched_get hget)
  | wait _ hclock ih => exact ih.wait hclock
  | reopen _ hlimit hopen ih => exact ih.reopen hlimit hopen

/-! ## What is removed -/

theorem mem_pruned_iff {info : StoredFormat} :
    (key, info) ∈ (s.pruned s.byUse limit).1 ++ (s.pruned s.byUse limit).2 ↔
      s.files[key]? = some info := by
  rw [(s.isByUse_byUse.perm_pruned limit).mem_iff, Std.TreeMap.mem_toList_iff_getElem?_eq_some]

/-- A format that is lost when the store is closed is one of those that are removed: the store
    knew it by the time when it was written, and it was not used in the session. -/
theorem Sound.exists_removed (h : Sound dir r) (hlimit : 0 ≤ limit) (hkey : '/' ∉ key.toList)
    (hfile : r.tree.stat (r.store.path key) = .ok (.file d))
    (hgone : (r.store.close r.tree limit).tree.stat (r.store.path key) ≠ .ok (.file d)) :
    ∃ info, (key, info) ∈ (r.store.pruned r.store.byUse limit).1 ∧ info.used = d.modified ∧
      ∀ u ∈ r.uses, u.key ≠ key := by
  rw [close_tree_of_nonneg hlimit] at hgone
  have hmem : key ∈ (r.store.pruned r.store.byUse limit).1.map Prod.fst := by
    by_contra hother
    refine hgone (stat_removeAll_of_not_mem ?_ ?_ hkey hother hfile)
    · exact fun g hg => h.named g.1 (r.store.isByUse_byUse.mem_of_removed hg)
    · intro g hg hdirectory
      have hg := r.store.isByUse_byUse.mem_of_removed hg
      exact h.files g.1 hg (h.found?_of_stat (h.named g.1 hg) hdirectory)
  obtain ⟨⟨key, info⟩, hremoved, rfl⟩ := List.mem_map.mp hmem
  obtain ⟨info', hinfo', hused, hunused⟩ := h.known key d hkey (h.found?_of_stat hkey hfile)
  have hinfo := mem_pruned_iff.mp (List.mem_append_left _ hremoved)
  obtain rfl := Option.some.inj (hinfo.symm.trans hinfo')
  -- A format that is removed was not used since the store was opened.
  have hold := unused_of_prune hlimit _ hremoved
  have hnever : ∀ u ∈ r.uses, u.key ≠ key := fun u hu hsame =>
    Int.not_le.mpr hold (hused ⟨u, hu, hsame⟩)
  exact ⟨info, hremoved, hunused hnever, hnever⟩

/-- A format that is there after the store was closed is one of those that are kept, and the
    store knew it by the time when it was written if it was not used in the session. -/
theorem Sound.exists_kept (h : Sound dir r) (hlimit : 0 ≤ limit) (hkey : '/' ∉ key.toList)
    (hstays : (r.store.close r.tree limit).tree.stat (r.store.path key) = .ok (.file d))
    (hunused : ∀ u ∈ r.uses, u.key ≠ key) :
    ∃ info, (key, info) ∈ (r.store.pruned r.store.byUse limit).2 ∧ info.used = d.modified ∧
      r.tree.stat (r.store.path key) = .ok (.file d) := by
  rw [close_tree_of_nonneg hlimit] at hstays
  have hfile := stat_of_stat_removeAll _ hstays
  obtain ⟨info, hinfo, -, hwritten⟩ := h.known key d hkey (h.found?_of_stat hkey hfile)
  refine ⟨info, ?_, hwritten hunused, hfile⟩
  refine (List.mem_append.mp (mem_pruned_iff.mpr hinfo)).resolve_left fun hremoved => ?_
  -- If it had been removed, it would not be there, whatever the other removals did.
  exact not_file_removeAll hremoved d hstays

/-! ## Two formats -/

/-- A file that was written at some time. -/
def writtenAt (modified : Int) : FileData :=
  { content := "", size := 10, modified }

/-- A directory with two formats, one written after the other. -/
def twoFormats : FileTree where
  entries := Std.TreeMap.ofList [("/f", FileEntry.directory), ("/f/a.fmt", .file (writtenAt 1)),
    ("/f/b.fmt", .file (writtenAt 2))]
  clock := 5

/-- A session in which neither of them was used; the older one was loaded in another session
    after the other was written. -/
def unusedFormats : Session where
  store :=
    { dir := "/f", opened := 5,
      files := Std.TreeMap.ofList [("a", StoredFormat.mk 10 1), ("b", .mk 10 2)] }
  tree := { twoFormats with clock := 6 }
  past := [⟨"a", 3, false⟩, ⟨"b", 2, true⟩, ⟨"a", 1, true⟩]
  uses := []

theorem list_twoFormats : twoFormats.list (Path.absolute twoFormats.cwd "/f") =
    [("a" ++ fileExtension, .file (writtenAt 1)), ("b" ++ fileExtension, .file (writtenAt 2))] := by
  decide +kernel

theorem openIn_twoFormats : openIn twoFormats "/f" =
    .ok ⟨unusedFormats.store, unusedFormats.tree, ["formats /f: 20B in 2 files"]⟩ := by
  have hmkdir : twoFormats.mkdirAll "/f" = .ok twoFormats := by rfl
  have hclassify (key : String) (n : Int) :
      classify (key ++ fileExtension) (.file (writtenAt n)) = .format key ⟨10, n⟩ :=
    classify_eq_format_iff.mpr ⟨rfl, writtenAt n, rfl, rfl⟩
  rw [openIn, hmkdir]
  simp only [bind, Except.bind, pure, Except.pure, list_twoFormats, FileTree.tick,
    List.foldl_cons, List.foldl_nil, record, hclassify]
  rfl

theorem reached_unusedFormats : Reached "/f" unusedFormats := by
  have hroot : Path.Full [] := by simp [Path.Full]
  refine .first hroot rfl ⟨by decide, by decide⟩ ?_ openIn_twoFormats
  intro key d hkey hthere
  have hmem := (FileTree.mem_list_iff (isComponent_file hkey)).mpr hthere
  rw [list_twoFormats] at hmem
  simp only [List.mem_cons, Prod.mk.injEq, String.append_left_inj, FileEntry.file.injEq,
    List.not_mem_nil, or_false] at hmem
  obtain ⟨rfl, rfl⟩ | ⟨rfl, rfl⟩ := hmem
  · rfl
  · rfl

theorem close_unusedFormats : (unusedFormats.store.close unusedFormats.tree 10).tree =
    (unusedFormats.store.removeAll unusedFormats.tree [("a", ⟨10, 1⟩)]).2 := by
  have hlist : unusedFormats.store.files.toList = [("a", ⟨10, 1⟩), ("b", ⟨10, 2⟩)] := by
    decide +kernel
  have hbyUse : unusedFormats.store.byUse = [("a", ⟨10, 1⟩), ("b", ⟨10, 2⟩)] := by
    rw [byUse, hlist]
    exact List.mergeSort_of_pairwise (by decide)
  rw [close_tree_of_nonneg (by decide), pruned, hbyUse]
  rfl

theorem gone_unusedFormats : (unusedFormats.store.close unusedFormats.tree 10).tree.stat
    (unusedFormats.store.path "a") ≠ .ok (.file (writtenAt 1)) := by
  rw [close_unusedFormats]
  decide +kernel

theorem stays_unusedFormats : (unusedFormats.store.close unusedFormats.tree 10).tree.stat
    (unusedFormats.store.path "b") = .ok (.file (writtenAt 2)) := by
  rw [close_unusedFormats]
  decide +kernel

/-! ## Pruning over sessions -/

/-- Pruning over sessions is by the last writing.  When a store is closed, a format that is
    lost was not used in this session, and it was last written before every other format that
    stays and was not used in this session either.  If it was not loaded since, in any session,
    then its last use was before those of the others, too. -/
theorem Reached.prunes_by_last_write (h : Reached dir r) (hlimit : 0 ≤ limit) {e : FileData}
    (hf : '/' ∉ f.toList) (hg : '/' ∉ g.toList)
    (hfile : r.tree.stat (r.store.path f) = .ok (.file d))
    (hgone : (r.store.close r.tree limit).tree.stat (r.store.path f) ≠ .ok (.file d))
    (hstays : (r.store.close r.tree limit).tree.stat (r.store.path g) = .ok (.file e))
    (hunused : ∀ u ∈ r.uses, u.key ≠ g) :
    (∀ u ∈ r.uses, u.key ≠ f) ∧ ∃ m n, lastWrite? r.history f = some m ∧
      lastWrite? r.history g = some n ∧ m < n ∧
      (lastUse? r.history f = some m → ∃ l, lastUse? r.history g = some l ∧ m < l) := by
  have hsound := h.sound
  obtain ⟨info, hremoved, hused, hnever⟩ := hsound.exists_removed hlimit hf hfile hgone
  obtain ⟨info', hkept, hused', hfile'⟩ := hsound.exists_kept hlimit hg hstays hunused
  have holdest := oldest_of_prune r.store.isByUse_byUse.sorted _ hremoved _ hkept
  have hwrite := hsound.written f d hf (hsound.found?_of_stat hf hfile)
  have hwrite' := hsound.written g e hg (hsound.found?_of_stat hg hfile')
  have hne : f ≠ g := by
    rintro rfl
    obtain rfl := FileEntry.file.inj (Except.ok.inj (hfile.symm.trans hfile'))
    exact hgone hstays
  have hlt : d.modified < e.modified := by
    have htimes := hsound.ordered.lastWrite?_ne hne hwrite hwrite'
    dsimp only at holdest
    omega
  refine ⟨hnever, d.modified, e.modified, hwrite, hwrite', hlt, fun _ => ?_⟩
  obtain ⟨l, hl, hle⟩ := hsound.ordered.exists_lastUse? hwrite'
  exact ⟨l, hl, Int.lt_of_lt_of_le hlt hle⟩

theorem prunes_by_last_write_two :
    let s := unusedFormats.store
    let t := unusedFormats.tree
    Reached "/f" unusedFormats ∧ t.stat (s.path "a") = .ok (.file (writtenAt 1)) ∧
      (s.close t 10).tree.stat (s.path "a") ≠ .ok (.file (writtenAt 1)) ∧
      (s.close t 10).tree.stat (s.path "b") = .ok (.file (writtenAt 2)) ∧
      (∀ u ∈ unusedFormats.uses, u.key ≠ "a") ∧
      ∃ m n, lastWrite? unusedFormats.history "a" = some m ∧
        lastWrite? unusedFormats.history "b" = some n ∧ m < n ∧
        (lastUse? unusedFormats.history "a" = some m →
          ∃ l, lastUse? unusedFormats.history "b" = some l ∧ m < l) := by
  have hfile : unusedFormats.tree.stat (unusedFormats.store.path "a") =
      .ok (.file (writtenAt 1)) := by
    decide +kernel
  exact ⟨reached_unusedFormats, hfile, gone_unusedFormats, stays_unusedFormats,
    reached_unusedFormats.prunes_by_last_write (by decide) (by decide) (by decide) hfile
      gone_unusedFormats stays_unusedFormats (by decide)⟩

/-- A load in a session before does not count: a format can be lost although it was used last
    after another one that stays. -/
theorem not_prunes_by_last_use :
    ¬∀ dir r limit f g d e, Reached dir r → 0 ≤ limit → '/' ∉ f.toList → '/' ∉ g.toList →
      r.tree.stat (r.store.path f) = .ok (.file d) →
      (r.store.close r.tree limit).tree.stat (r.store.path f) ≠ .ok (.file d) →
      (r.store.close r.tree limit).tree.stat (r.store.path g) = .ok (.file e) →
      (∀ u ∈ r.uses, u.key ≠ g) →
      ∃ m n, lastUse? r.history f = some m ∧ lastUse? r.history g = some n ∧ m < n := by
  intro hall
  obtain ⟨m, n, hm, hn, hlt⟩ := hall _ _ 10 _ _ _ _ reached_unusedFormats (by decide)
    (by decide) (by decide) (by decide +kernel) gone_unusedFormats stays_unusedFormats (by decide)
  obtain rfl : 3 = m := Option.some.inj hm
  obtain rfl : 2 = n := Option.some.inj hn
  contradiction

end Session

end TexEngine.FormatStore
