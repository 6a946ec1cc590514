/-
  TexEngine.Proofs.Engine.BoxStack

  Box groups and open boxes.  The engine keeps a stack of groups, and the typesetter keeps
  a stack of open boxes.  Both are changed in different places, but they stay in step: the
  open boxes are those of the box groups, in the same order.  Therefore the end of a box
  group finds the box that was opened with the group, and the box holds what was typeset
  while it was the innermost one.
-/
import TexEngine.Proofs.Engine.History.Execute

namespace TexEngine

/-! ## Outlines -/

/-- The kind of the box that is made in a group, if it is a box group. -/
def GroupType.boxKind? : GroupType → Option BoxKind
  | hbox => some .horizontal
  | vbox => some .vertical
  | _ => none

/-- What assignments do not change of a group: its type, and where its box goes. -/
def Group.outline {μ : Type} (g : Group μ) : GroupType × Option Delivery :=
  (g.type, g.deliver)

namespace Env

variable {env env' : Env Meaning}

/-- The outlines of the open groups, innermost first. -/
def outline (env : Env Meaning) : List (GroupType × Option Delivery) :=
  env.groups.map Group.outline

@[simp] theorem outline_assign (env : Env Meaning) (a : Assignment Meaning) (global : Bool) :
    (env.assign a global).outline = env.outline := by
  unfold outline assign
  rw [groups_write]
  split
  · exact (List.map_map ..).trans rfl
  · unfold save
    split
    · rfl
    · rename_i g gs hgroups
      rw [hgroups, List.map_cons, List.map_cons]
      congr 1
      unfold Group.save
      split <;> rfl

@[simp] theorem outline_fetchBox (env : Env Meaning) (name : String) (keep : Bool) :
    (env.fetchBox name keep).outline = env.outline := by
  unfold fetchBox
  split
  · exact outline_assign ..
  · rfl

@[simp] theorem outline_afterGroup (env : Env Meaning) (t : Token) :
    (env.afterGroup t).outline = env.outline := by
  unfold outline afterGroup
  split
  · rfl
  · rename_i g gs hgroups
    rw [hgroups]
    rfl

theorem Relaxes.outline {names : List String} (h : env.Relaxes names env') :
    env'.outline = env.outline := by
  induction h with
  | refl => rfl
  | relax _ _ ih => exact (outline_assign ..).trans ih
  | conditionals _ cs ih => exact ih

@[simp] theorem outline_receive (env : Env Meaning) (b : Box) (deliver : Option Delivery) :
    (env.receive b deliver).outline = env.outline := by
  unfold receive
  split
  · exact outline_assign ..
  · rfl

/-- The number of outlines is the number of open groups. -/
theorem length_outline (env : Env Meaning) : env.outline.length = env.level :=
  List.length_map ..

end Env

/-! ## Changes of the two stacks -/

/-- The item that was added, with the number of boxes that were open. -/
def BoxEvent.addition? : BoxEvent → Option (Nat × Node)
  | .added depth n => some (depth, n)
  | _ => none

/-- The items that were added while `depth` boxes were open, the first one first. -/
def additionsAt (depth : Nat) (events : List BoxEvent) : List Node :=
  (events.filterMap BoxEvent.addition?).filterMap fun a => if a.1 = depth then some a.2 else none

theorem additionsAt_append (depth : Nat) (events events' : List BoxEvent) :
    additionsAt depth (events ++ events') =
      additionsAt depth events ++ additionsAt depth events' := by
  simp [additionsAt]

theorem additionsAt_cons (depth : Nat) (e : BoxEvent) (events : List BoxEvent) :
    additionsAt depth (e :: events) = additionsAt depth [e] ++ additionsAt depth events :=
  additionsAt_append depth [e] events

theorem additionsAt_of_none {events : List BoxEvent}
    (h : events.filterMap BoxEvent.addition? = []) (depth : Nat) :
    additionsAt depth events = [] := by
  rw [additionsAt, h, List.filterMap_nil]

theorem additionsAt_of_singleton {events : List BoxEvent} {depth : Nat} {n : Node}
    (h : events.filterMap BoxEvent.addition? = [(depth, n)]) (depth' : Nat) :
    additionsAt depth' events = if depth = depth' then [n] else [] := by
  rw [additionsAt, h]
  by_cases hdepth : depth = depth' <;> simp [hdepth]

theorem additionsAt_added (depth depth' : Nat) (n : Node) :
    additionsAt depth' [.added depth n] = if depth = depth' then [n] else [] :=
  additionsAt_of_singleton rfl depth'

namespace Recorder

@[simp] theorem kinds_add (r : Recorder) (n : Node) :
    (r.add n).boxes.map OpenBox.kind = r.boxes.map OpenBox.kind := by
  unfold add
  split <;> simp_all

theorem receive_of_ne (r : Recorder) (b : Box) {deliver : Option Delivery}
    (h : deliver ≠ some .toPage) : r.receive b deliver = r := by
  unfold receive
  split
  · contradiction
  · rfl

@[simp] theorem kinds_receive (r : Recorder) (b : Box) (deliver : Option Delivery) :
    (r.receive b deliver).boxes.map OpenBox.kind = r.boxes.map OpenBox.kind := by
  unfold receive
  split
  · exact kinds_add ..
  · rfl

end Recorder

namespace Machine

/-- What a change does to the stack of groups and to the typesetter. -/
inductive Moves (m : Machine) (events : List BoxEvent) (m' : Machine) : Prop where
  | stay (houtline : m'.env.outline = m.env.outline) (hpage : m'.page = m.page)
      (hevents : events.filterMap BoxEvent.addition? = [])
  | add (n : Node) (houtline : m'.env.outline = m.env.outline) (hpage : m'.page = m.page.add n)
      (hevents : events.filterMap BoxEvent.addition? = [(m.page.boxes.length, n)])
  | enter (type : GroupType) (htype : type.isBox = false)
      (houtline : m'.env.outline = (type, none) :: m.env.outline) (hpage : m'.page = m.page)
      (hevents : events.filterMap BoxEvent.addition? = [])
  | enterBox (kind : BoxKind) (spec : BoxSpec) (deliver : Delivery)
      (houtline : m'.env.outline = (kind.groupType, some deliver) :: m.env.outline)
      (hpage : m'.page = m.page.openBox kind spec)
      (hevents : events.filterMap BoxEvent.addition? = [])
  | leave (g : Group Meaning) (b : Box) (r : Recorder)
      (houtline : m.env.outline = g.outline :: m'.env.outline)
      (hbox : g.finishBox? m.page = some (b, r)) (hpage : m'.page = r.receive b g.deliver)
      (hevents : events.filterMap BoxEvent.addition? =
        if g.deliver = some .toPage then [(r.boxes.length, Box.node? (some b))] else [])

theorem filterMap_fetch (env : Env Meaning) (name : String) (keep : Bool) :
    (BoxEvent.fetch env name keep).filterMap BoxEvent.addition? = [] := by
  unfold BoxEvent.fetch
  split
  · rfl
  · split
    · rfl
    · split <;> rfl

theorem Change.moves {m m' : Machine} {events : List BoxEvent} (h : m.Change events m') :
    m.Moves events m' := by
  -- Only what enters or leaves a group moves the outline; only boxes, nodes and their groups move
  -- the page.
  cases h with
  | expand hexpands =>
    obtain ⟨names, hnames⟩ := hexpands.env
    exact .stay hnames.outline (congrArg Machine.page hexpands.apart :) rfl
  | rest hsame => exact .stay (congrArg (List.map Group.outline) hsame.groups) hsame.page rfl
  | assign a global hbox hmeaning => exact .stay (Env.outline_assign ..) rfl rfl
  | afterGroup t => exact .stay (Env.outline_afterGroup ..) rfl rfl
  | openGroup type locator start htype => exact .enter type htype rfl rfl rfl
  | openBox kind spec locator start deliver => exact .enterBox kind spec deliver rfl rfl rfl
  | @closeGroup g gs b r c hgroups hbox hclose =>
    obtain ⟨henv, hrecorder⟩ := Env.closeGroup_eq_receive hgroups hbox hclose
    refine .leave g b r ?_ hbox ?_ ?_
    · show m.env.outline = g.outline :: c.env.outline
      rw [henv, Env.outline_receive, Env.outline, hgroups]
      rfl
    · show c.recorder.getD m.page = _
      rw [hrecorder]
      rfl
    · cases g.deliver with
      | none => rfl
      | some d => cases d <;> rfl
  | typeset n hbox => exact .add n rfl rfl rfl
  | useBox name keep hbox =>
    refine .add _ (Env.outline_fetchBox ..) rfl ?_
    rw [List.filterMap_append, filterMap_fetch]
    rfl
  | moveBox source keep target global =>
    refine .stay ?_ rfl (filterMap_fetch ..)
    exact (Env.outline_assign ..).trans (Env.outline_fetchBox ..)

/-! ## The stacks stay in step -/

/-- The open boxes are those of the box groups, innermost first. -/
def InStep (m : Machine) : Prop :=
  m.page.boxes.map OpenBox.kind = m.env.groups.filterMap fun g => g.type.boxKind?

/-- Whether the stacks are in step depends on the outlines of the groups. -/
theorem inStep_iff {m : Machine} : m.InStep ↔
    m.page.boxes.map OpenBox.kind = m.env.outline.filterMap fun o => o.1.boxKind? := by
  rw [InStep, Env.outline, List.filterMap_map]
  rfl

theorem boxKind?_of_isBox_eq_false {type : GroupType} (h : type.isBox = false) :
    type.boxKind? = none := by
  cases type <;> first | rfl | contradiction

theorem exists_boxKind?_eq_some {type : GroupType} (h : type.isBox = true) :
    ∃ kind, type.boxKind? = some kind := by
  cases type with
  | hbox => exact ⟨_, rfl⟩
  | vbox => exact ⟨_, rfl⟩
  | _ => contradiction

theorem filterMap_outline_cons (o : GroupType × Option Delivery)
    (os : List (GroupType × Option Delivery)) :
    ((o :: os).filterMap fun o => o.1.boxKind?) =
      o.1.boxKind?.toList ++ os.filterMap fun o => o.1.boxKind? := by
  rw [List.filterMap_cons]
  cases o.1.boxKind? <;> rfl

/-- Where the stacks are in step, the end of a group finds its box. -/
theorem exists_finishBox?_eq_some {g : Group Meaning} {r : Recorder}
    {outer : List (GroupType × Option Delivery)}
    (h : r.boxes.map OpenBox.kind = (g.outline :: outer).filterMap fun o => o.1.boxKind?) :
    ∃ b r', g.finishBox? r = some (b, r') := by
  unfold Group.finishBox?
  split
  · rename_i htype
    obtain ⟨kind, hkind⟩ := exists_boxKind?_eq_some htype
    have hfirst : g.outline.1.boxKind? = some kind := hkind
    rw [List.filterMap_cons, hfirst] at h
    cases hboxes : r.boxes with
    | nil =>
      rw [hboxes] at h
      contradiction
    | cons b bs => exact ⟨_, _, by rw [Recorder.closeBox?, hboxes]⟩
  · exact ⟨_, _, rfl⟩

/-- The end of a group takes the innermost open box if the group is a box group, and
    otherwise no box. -/
theorem finishBox?_eq_some {g : Group Meaning} {r r' : Recorder} {b : Box}
    (h : g.finishBox? r = some (b, r')) :
    ∃ closed, r = { r' with boxes := closed ++ r'.boxes } ∧
      closed.length = g.outline.1.boxKind?.toList.length := by
  unfold Group.finishBox? at h
  split at h
  · rename_i htype
    obtain ⟨kind, hkind⟩ := exists_boxKind?_eq_some htype
    have hfirst : g.outline.1.boxKind? = some kind := hkind
    unfold Recorder.closeBox? at h
    split at h
    · contradiction
    · rename_i o bs hboxes
      obtain ⟨rfl, rfl⟩ := Prod.mk.inj (Option.some.inj h)
      refine ⟨[o], ?_, ?_⟩
      · rw [List.singleton_append, ← hboxes]
      · rw [hfirst]
        rfl
  · rename_i htype
    have hfirst : g.outline.1.boxKind? = none :=
      boxKind?_of_isBox_eq_false (Bool.not_eq_true _ ▸ htype)
    obtain ⟨rfl, rfl⟩ := Prod.mk.inj (Option.some.inj h)
    exact ⟨[], rfl, by rw [hfirst]; rfl⟩

theorem Moves.inStep {m m' : Machine} {events : List BoxEvent} (h : m.Moves events m')
    (hm : m.InStep) : m'.InStep := by
  rw [inStep_iff] at hm ⊢
  cases h with
  | stay houtline hpage => rw [houtline, hpage, hm]
  | add n houtline hpage => rw [houtline, hpage, Recorder.kinds_add, hm]
  | enter type htype houtline hpage =>
    rw [houtline, hpage, hm, List.filterMap_cons, boxKind?_of_isBox_eq_false htype]
  | enterBox kind spec deliver houtline hpage =>
    have hkind : kind.groupType.boxKind? = some kind := by cases kind <;> rfl
    rw [houtline, hpage, List.filterMap_cons, hkind, ← hm]
    rfl
  | leave g b r houtline hbox hpage =>
    obtain ⟨closed, hclosed, hlength⟩ := finishBox?_eq_some hbox
    rw [houtline, filterMap_outline_cons, hclosed, List.map_append] at hm
    rw [hpage, Recorder.kinds_receive]
    exact (List.append_inj hm (by rw [List.length_map, hlength])).2

theorem History.inStep {m m' : Machine} {steps : List Step} (h : m.History steps m')
    (hm : m.InStep) : m'.InStep := by
  induction h with
  | refl => exact hm
  | step _ hchange ih => exact hchange.moves.inStep ih

theorem inStep_machine (s : Setup) : s.machine.InStep := rfl

/-- The box groups are those that deliver a box at their end. -/
def DeliversBoxes (m : Machine) : Prop :=
  ∀ o ∈ m.env.outline, o.1.isBox = o.2.isSome

theorem Moves.deliversBoxes {m m' : Machine} {events : List BoxEvent} (h : m.Moves events m')
    (hm : m.DeliversBoxes) : m'.DeliversBoxes := by
  unfold DeliversBoxes at *
  cases h with
  | stay houtline => rwa [houtline]
  | add n houtline => rwa [houtline]
  | enter type htype houtline =>
    rw [houtline]
    exact List.forall_mem_cons.mpr ⟨htype, hm⟩
  | enterBox kind spec deliver houtline =>
    rw [houtline]
    exact List.forall_mem_cons.mpr ⟨by cases kind <;> rfl, hm⟩
  | leave g b r houtline =>
    rw [houtline] at hm
    exact (List.forall_mem_cons.mp hm).2

theorem History.deliversBoxes {m m' : Machine} {steps : List Step} (h : m.History steps m')
    (hm : m.DeliversBoxes) : m'.DeliversBoxes := by
  induction h with
  | refl => exact hm
  | step _ hchange ih => exact hchange.moves.deliversBoxes ih

theorem deliversBoxes_machine (s : Setup) : s.machine.DeliversBoxes :=
  fun _ => (nomatch ·)

end Machine

/-! ## The typesetter and the log of boxes -/

/-- What an event does to the typesetter.  A box that is built is the innermost one. -/
inductive BoxEvent.Acts : BoxEvent → Recorder → Recorder → Prop where
  | opened (r : Recorder) (kind : BoxKind) (spec : BoxSpec) :
      Acts (.opened kind spec) r (r.openBox kind spec)
  | added (r : Recorder) (n : Node) : Acts (.added r.boxes.length n) r (r.add n)
  | built {r r' : Recorder} {b : Box} (h : r.closeBox? = some (b, r')) : Acts (.built b) r r'
  | used (r : Recorder) (b : Box) : Acts (.used b) r r
  | copied (r : Recorder) (b : Box) : Acts (.copied b) r r
  | remembered (r : Recorder) (b : Box) : Acts (.remembered b) r r

/-- The events lead from one state of the typesetter to another. -/
inductive Recorder.Replays : Recorder → List BoxEvent → Recorder → Prop where
  | nil (r : Recorder) : Replays r [] r
  | cons {r r' r'' : Recorder} {e : BoxEvent} {events : List BoxEvent} (h : e.Acts r r')
      (hrest : Replays r' events r'') : Replays r (e :: events) r''

namespace Recorder

variable {r r' r'' : Recorder} {events events' : List BoxEvent}

theorem replays_append :
    r.Replays (events ++ events') r'' ↔ ∃ r', r.Replays events r' ∧ r'.Replays events' r'' := by
  induction events generalizing r with
  | nil =>
    refine ⟨fun h => ⟨r, .nil r, h⟩, ?_⟩
    rintro ⟨r', h, h'⟩
    cases h
    exact h'
  | cons e events ih =>
    refine ⟨fun h => ?_, ?_⟩
    · cases h with
      | cons h hrest =>
        obtain ⟨r', hrest, h'⟩ := ih.mp hrest
        exact ⟨r', .cons h hrest, h'⟩
    · rintro ⟨r', h, h'⟩
      cases h with
      | cons h hrest => exact .cons h (ih.mpr ⟨r', hrest, h'⟩)

theorem Replays.append (h : r.Replays events r') (h' : r'.Replays events' r'') :
    r.Replays (events ++ events') r'' :=
  replays_append.mpr ⟨r', h, h'⟩

/-- Fetching a box leaves the typesetter as it is. -/
theorem replays_fetch (r : Recorder) (env : Env Meaning) (name : String) (keep : Bool) :
    r.Replays (BoxEvent.fetch env name keep) r := by
  unfold BoxEvent.fetch
  split
  · exact .nil r
  · rename_i b _
    split
    · exact .cons (.copied r b) (.nil r)
    · split
      · exact .cons (.remembered r b) (.nil r)
      · exact .nil r

theorem replays_deliver (r : Recorder) (b : Box) :
    r.Replays (BoxEvent.deliver r.boxes.length b) (r.add (Box.node? (some b))) :=
  .cons (.used r b) (.cons (.added r _) (.nil _))

/-- What the end of a group does, if the box groups are those that deliver a box. -/
theorem replays_finish {g : Group Meaning} {b : Box} (hdelivers : g.type.isBox = g.deliver.isSome)
    (hbox : g.finishBox? r = some (b, r')) :
    r.Replays (BoxEvent.finish r'.boxes.length b g.deliver) (r'.receive b g.deliver) := by
  unfold Group.finishBox? at hbox
  rw [hdelivers] at hbox
  rcases hdeliver : g.deliver with - | - | ⟨name, global⟩ <;> rw [hdeliver] at hbox
  · obtain ⟨-, rfl⟩ := Prod.mk.inj (Option.some.inj hbox)
    exact .nil r
  · exact .cons (.built hbox) (replays_deliver r' b)
  · exact .cons (.built hbox) (.nil r')

end Recorder

theorem Machine.Change.replays {m m' : Machine} {events : List BoxEvent} (h : m.Change events m')
    (hm : m.DeliversBoxes) : m.page.Replays events m'.page := by
  cases h with
  | expand hexpands =>
    rw [show m'.page = m.page from (congrArg Machine.page hexpands.apart :)]
    exact .nil m.page
  | rest hsame =>
    rw [hsame.page]
    exact .nil m.page
  | assign | afterGroup | openGroup => exact .nil m.page
  | openBox kind spec => exact .cons (.opened m.page kind spec) (.nil _)
  | @closeGroup g gs b r c hgroups hbox hclose =>
    obtain ⟨-, hrecorder⟩ := Env.closeGroup_eq_receive hgroups hbox hclose
    have hdelivers : g.type.isBox = g.deliver.isSome := by
      refine hm g.outline ?_
      rw [Env.outline, hgroups]
      exact List.mem_cons_self ..
    show m.page.Replays _ (c.recorder.getD m.page)
    rw [hrecorder]
    exact Recorder.replays_finish hdelivers hbox
  | typeset n => exact .cons (.added m.page n) (.nil _)
  | useBox name keep =>
    exact (Recorder.replays_fetch ..).append (Recorder.replays_deliver ..)
  | moveBox source keep => exact Recorder.replays_fetch ..

theorem Machine.History.replays {m m' : Machine} {steps : List Step} (h : m.History steps m')
    (hm : m.DeliversBoxes) : m.page.Replays (eventsOf steps) m'.page := by
  induction h with
  | refl => exact .nil m.page
  | step h hchange ih =>
    rw [eventsOf_append, eventsOf_singleton]
    exact ih.append (hchange.replays (h.deliversBoxes hm))

/-- The event neither opens a box nor builds one. -/
def BoxEvent.isFlat : BoxEvent → Bool
  | opened _ _ => false
  | built _ => false
  | _ => true

/-- All boxes that are opened in the events are built in them, and no others. -/
inductive BoxEvent.Closed : List BoxEvent → Prop where
  | nil : Closed []
  | flat {e : BoxEvent} {events : List BoxEvent} (he : e.isFlat = true) (h : Closed events) :
      Closed (e :: events)
  | box (kind : BoxKind) (spec : BoxSpec) (b : Box) {inside events : List BoxEvent}
      (hinside : Closed inside) (h : Closed events) :
      Closed (.opened kind spec :: inside ++ .built b :: events)

namespace Recorder

/-- The typesetter after further items were added. -/
def addAll (r : Recorder) (ns : List Node) : Recorder :=
  ns.foldl add r

theorem addAll_open (r : Recorder) (kind : BoxKind) (spec : BoxSpec) (latest ns : List Node) :
    addAll { r with boxes := { kind, spec, latest } :: r.boxes } ns =
      { r with boxes := { kind, spec, latest := ns.reverse ++ latest } :: r.boxes } := by
  induction ns generalizing latest with
  | nil => rfl
  | cons n ns ih =>
    rw [List.reverse_cons, List.append_assoc]
    exact ih (n :: latest)

/-- A box that is closed holds the items that were added to it. -/
theorem closeBox?_addAll_openBox (r : Recorder) (kind : BoxKind) (spec : BoxSpec)
    (ns : List Node) :
    ((r.openBox kind spec).addAll ns).closeBox? = some ({ kind, spec, nodes := ns }, r) := by
  have haddAll := r.addAll_open kind spec [] ns
  rw [List.append_nil] at haddAll
  rw [openBox, haddAll, closeBox?]
  simp

variable {r r' : Recorder} {events before inside after : List BoxEvent} {kind : BoxKind}
  {spec : BoxSpec} {b : Box}

/-- Events in which all boxes are closed again add items to the innermost box, and none to the
    boxes around it. -/
theorem Replays.of_closed (h : r.Replays events r') (hclosed : BoxEvent.Closed events) :
    r' = r.addAll (additionsAt r.boxes.length events) ∧
      ∀ depth < r.boxes.length, additionsAt depth events = [] := by
  -- By induction on the nesting: what is added inside of a further box is at a greater depth.
  induction hclosed generalizing r r' with
  | nil =>
    cases h
    exact ⟨rfl, fun _ _ => rfl⟩
  | flat he _ ih =>
    cases h with | cons hacts hrest => ?_
    cases hacts with
    | opened | built => contradiction
    | added r n =>
      have hlength : (r.add n).boxes.length = r.boxes.length := by
        rw [← List.length_map OpenBox.kind, kinds_add, List.length_map]
      obtain ⟨heq, hbelow⟩ := ih hrest
      rw [hlength] at heq hbelow
      refine ⟨?_, fun depth hdepth => ?_⟩
      · rw [heq, additionsAt_cons, additionsAt_added, if_pos rfl]
        rfl
      · rw [additionsAt_cons, additionsAt_added, if_neg (Nat.ne_of_gt hdepth)]
        exact hbelow depth hdepth
    | used | copied | remembered => exact ih hrest
  | @box kind spec b inside events _ _ ihInside ih =>
    rw [List.cons_append] at h
    cases h with | cons hopened hrest => ?_
    cases hopened
    obtain ⟨_, hinside, hrest⟩ := replays_append.mp hrest
    cases hrest with | cons hbuilt hrest => ?_
    cases hbuilt with | built hclose => ?_
    obtain ⟨rfl, hinsideBelow⟩ := ihInside hinside
    rw [closeBox?_addAll_openBox] at hclose
    obtain ⟨-, rfl⟩ := Prod.mk.inj (Option.some.inj hclose)
    obtain ⟨heq, hbelow⟩ := ih hrest
    have hskip : ∀ depth < r.boxes.length + 1,
        additionsAt depth (.opened kind spec :: inside ++ .built b :: events) =
          additionsAt depth events := fun depth hdepth => by
      rw [additionsAt_append, additionsAt_cons, hinsideBelow depth hdepth]
      rfl
    refine ⟨?_, fun depth hdepth => ?_⟩
    · rw [hskip _ (Nat.lt_succ_self _)]
      exact heq
    · rw [hskip depth (Nat.lt_succ_of_lt hdepth)]
      exact hbelow depth hdepth

/-- A box that is built holds the items that were added since it was opened, while it was the
    innermost box. -/
theorem Replays.built_eq
    (h : r.Replays (before ++ .opened kind spec :: inside ++ .built b :: after) r')
    (hclosed : BoxEvent.Closed inside) :
    ∃ p, r.Replays before p ∧
      b = { kind, spec, nodes := additionsAt (p.boxes.length + 1) inside } := by
  obtain ⟨q, hbegin, hend⟩ := replays_append.mp h
  obtain ⟨p, hbefore, hopen⟩ := replays_append.mp hbegin
  cases hopen with | cons hopened hinside => ?_
  cases hopened
  cases hend with | cons hbuilt _ => ?_
  cases hbuilt with | built hclose => ?_
  obtain ⟨rfl, -⟩ := hinside.of_closed hclosed
  rw [closeBox?_addAll_openBox] at hclose
  exact ⟨p, hbefore, (Prod.mk.inj (Option.some.inj hclose)).1.symm⟩

end Recorder

/-! ## The contents of a box -/

namespace Recorder

/-- A typesetter with further open boxes: one around the others. -/
def within (r : Recorder) (inner : List OpenBox) (b : OpenBox) : Recorder :=
  { r with boxes := inner ++ b :: r.boxes }

/-- An item goes to the box, or to one of those inside of it. -/
theorem exists_add_within (r : Recorder) (inner : List OpenBox) (kind : BoxKind) (spec : BoxSpec)
    (ns : List Node) (n : Node) :
    let p := r.within inner { kind, spec, latest := ns.reverse }
    let here := if p.boxes.length = r.boxes.length + 1 then [n] else []
    ∃ inner', inner'.map OpenBox.kind = inner.map OpenBox.kind ∧
      p.add n = r.within inner' { kind, spec, latest := (ns ++ here).reverse } := by
  intro p here
  cases inner with
  | nil =>
    have hhere : here = [n] := if_pos rfl
    refine ⟨[], rfl, ?_⟩
    rw [hhere, List.reverse_append]
    rfl
  | cons b inner =>
    have hhere : here = [] := by
      refine if_neg ?_
      simp only [p, within, List.length_append, List.length_cons]
      omega
    refine ⟨{ b with latest := n :: b.latest } :: inner, rfl, ?_⟩
    rw [hhere, List.append_nil]
    rfl

end Recorder

namespace Machine

/-- The group of a box, or a group inside of it, is open.  `outer` are the groups around,
    `r` is the typesetter at the beginning of the box, and `ns` are the items of the box
    up to now. -/
def Inside (outer : List (GroupType × Option Delivery)) (r : Recorder) (kind : BoxKind)
    (spec : BoxSpec) (deliver : Delivery) (ns : List Node) (m : Machine) : Prop :=
  ∃ above inner, m.env.outline = above ++ (kind.groupType, some deliver) :: outer ∧
    m.page = r.within inner { kind, spec, latest := ns.reverse } ∧
    inner.map OpenBox.kind = above.filterMap fun o => o.1.boxKind?

variable {outer : List (GroupType × Option Delivery)} {r : Recorder} {kind : BoxKind}
  {spec : BoxSpec} {deliver : Delivery} {ns : List Node} {m m' : Machine}

/-- The end of a group inside takes its box, if it has one, and no other. -/
theorem finishBox?_within {g : Group Meaning} {above : List (GroupType × Option Delivery)}
    {inner : List OpenBox} {o : OpenBox} {b : Box} {r' : Recorder}
    (hkinds : inner.map OpenBox.kind = (g.outline :: above).filterMap fun o => o.1.boxKind?)
    (h : g.finishBox? (r.within inner o) = some (b, r')) :
    ∃ inner', r' = r.within inner' o ∧
      inner'.map OpenBox.kind = above.filterMap fun o => o.1.boxKind? := by
  obtain ⟨closed, hclosed, hlength⟩ := finishBox?_eq_some h
  rw [filterMap_outline_cons] at hkinds
  obtain ⟨first, inner', rfl, hfirst, hinner⟩ := List.map_eq_append_iff.mp hkinds
  have hlist : first ++ (inner' ++ o :: r.boxes) = closed ++ r'.boxes := by
    rw [← List.append_assoc]
    exact congrArg Recorder.boxes hclosed
  have hlengths : first.length = closed.length := by
    rw [hlength, ← hfirst, List.length_map]
  have hlatest : r.latest = r'.latest := (congrArg Recorder.latest hclosed :)
  refine ⟨inner', ?_, hinner⟩
  rw [Recorder.within, (List.append_inj hlist hlengths).2, hlatest]

/-- As long as the group is not closed, the box gets what is added while it is the innermost
    one. -/
theorem Moves.inside {events : List BoxEvent} (h : m.Moves events m')
    (hm : m.Inside outer r kind spec deliver ns) (hopen : outer.length < m'.env.outline.length) :
    m'.Inside outer r kind spec deliver (ns ++ additionsAt (r.boxes.length + 1) events) := by
  obtain ⟨above, inner, hgroups, hboxes, hkinds⟩ := hm
  cases h with
  | stay houtline hpage hevents =>
    rw [additionsAt_of_none hevents, List.append_nil]
    exact ⟨above, inner, houtline.trans hgroups, hpage.trans hboxes, hkinds⟩
  | add n houtline hpage hevents =>
    obtain ⟨inner', hinner, hadd⟩ := r.exists_add_within inner kind spec ns n
    rw [additionsAt_of_singleton hevents, hboxes]
    exact ⟨above, inner', houtline.trans hgroups, hpage.trans (hboxes ▸ hadd), hinner.trans hkinds⟩
  | enter type htype houtline hpage hevents =>
    rw [additionsAt_of_none hevents, List.append_nil]
    refine ⟨(type, none) :: above, inner, ?_, hpage.trans hboxes, ?_⟩
    · rw [houtline, hgroups]
      rfl
    · rw [hkinds, List.filterMap_cons, boxKind?_of_isBox_eq_false htype]
  | enterBox kind' spec' deliver' houtline hpage hevents =>
    rw [additionsAt_of_none hevents, List.append_nil]
    have hkind : kind'.groupType.boxKind? = some kind' := by cases kind' <;> rfl
    refine ⟨(kind'.groupType, some deliver') :: above, { kind := kind', spec := spec' } :: inner,
      ?_, ?_, ?_⟩
    · rw [houtline, hgroups]
      rfl
    · rw [hpage, hboxes]
      rfl
    · rw [List.map_cons, List.filterMap_cons, hkind, hkinds]
  | leave g b r' houtline hbox hpage hevents =>
    rw [hgroups] at houtline
    -- The group that ends lies inside, since the one of the box stays open.
    cases above with
    | nil =>
      obtain ⟨-, hsame⟩ := List.cons.inj houtline
      rw [hsame] at hopen
      exact absurd hopen (Nat.lt_irrefl _)
    | cons o above =>
      obtain ⟨rfl, habove⟩ := List.cons.inj houtline
      rw [hboxes] at hbox
      obtain ⟨inner, rfl, hinner⟩ := finishBox?_within hkinds hbox
      by_cases hdeliver : g.deliver = some .toPage
      · obtain ⟨inner', hinner', hadd⟩ :=
          r.exists_add_within inner kind spec ns (Box.node? (some b))
        rw [if_pos hdeliver] at hevents
        rw [additionsAt_of_singleton hevents]
        refine ⟨above, inner', habove.symm, ?_, hinner'.trans hinner⟩
        rw [hpage, hdeliver]
        exact hadd
      · rw [if_neg hdeliver] at hevents
        rw [additionsAt_of_none hevents, List.append_nil]
        refine ⟨above, inner, habove.symm, ?_, hinner⟩
        rw [hpage, Recorder.receive_of_ne _ _ hdeliver]

/-- The same for a history, in which the group stays open. -/
theorem History.inside {m₁ : Machine} {steps : List Step} (h : m₁.History steps m)
    (hm : m₁.Inside outer r kind spec deliver ns)
    (hopen : ∀ step ∈ steps, outer.length < step.after.env.outline.length) :
    m.Inside outer r kind spec deliver
      (ns ++ additionsAt (r.boxes.length + 1) (eventsOf steps)) := by
  induction h with
  | refl => simpa [additionsAt] using hm
  | @step steps m' m'' events h hchange ih =>
    rw [List.forall_mem_append, List.forall_mem_singleton] at hopen
    rw [eventsOf_append, eventsOf_singleton, additionsAt_append, ← List.append_assoc]
    exact hchange.moves.inside (ih hopen.1) hopen.2

/-- A group can be closed wherever one is open. -/
theorem InStep.exists_closeGroup (hm : m.InStep) (hopen : m.env.groups ≠ []) :
    ∃ m', Expander.closeGroup m = .ok () m' := by
  obtain ⟨g, gs, hgroups⟩ := List.exists_cons_of_ne_nil hopen
  have hkinds := inStep_iff.mp hm
  rw [Env.outline, hgroups, List.map_cons] at hkinds
  obtain ⟨b, r, hbox⟩ := exists_finishBox?_eq_some hkinds
  obtain ⟨c, hclose, -⟩ := Env.exists_closeGroup_eq_ok Meaning.name hgroups hbox
  have htraces : ∀ (texts : List String) (m : Machine), ∃ m',
      (texts.forM fun text => Eng.trace .info .environment fun _ => text) m = .ok () m' := by
    intro texts
    induction texts with
    | nil => exact fun m => ⟨m, rfl⟩
    | cons text texts ih =>
      intro m
      obtain ⟨m', hm'⟩ := ih (m.note (Eng.traceEvents m.traceLevel .info .environment text))
      exact ⟨m', (Eng.bind_of_ok (Eng.trace_apply ..) _).trans hm'⟩
  obtain ⟨m', hm'⟩ := htraces c.traces
    ({ m with env := c.env, page := c.recorder.getD m.page }.logBoxes m.closing)
  unfold Expander.closeGroup
  rw [Eng.bind_of_ok (Eng.get_apply m), hclose]
  exact ⟨_, (Eng.bind_of_ok rfl _).trans (Eng.bind_of_ok hm' _)⟩

/-- At the end of a job, there is nothing wrong with the boxes. -/
theorem InStep.finish_ne (hm : m.InStep) (message : String) :
    m.finish ≠ .error (.failure message) := by
  unfold finish
  split
  · simp
  · rename_i hgroups
    have hboxes : m.page.boxes = [] := by
      rw [InStep, hgroups] at hm
      exact List.map_eq_nil_iff.mp hm
    split
    · simp
    · simp [Recorder.unfinished?, hboxes]

/-- The state at the beginning of a box: the box is open, and so is the group of its
    contents. -/
def beginBox (m : Machine) (kind : BoxKind) (spec : BoxSpec) (locator : Locator) (start : Token)
    (deliver : Delivery) : Machine :=
  { m with page := m.page.openBox kind spec
           env := (m.env.openGroup kind.groupType locator start deliver).1 }.logBoxes
    [.opened kind spec]

/-- The end of the group of a box gives this box, with what was added to it. -/
theorem exists_closeGroup_of_inside (h : m'.Inside m.env.outline m.page kind spec deliver ns)
    (hlevel : m'.env.level = m.env.level + 1) :
    ∃ c, m'.env.closeGroup Meaning.name (some m'.page) = .ok c ∧
      c.recorder = some (m.page.receive { kind, spec, nodes := ns } deliver) ∧
      ∀ name global, deliver = .toRegister name global →
        c.env.box name = some { kind, spec, nodes := ns } := by
  obtain ⟨above, inner, hgroups, hpage, hkinds⟩ := h
  -- At the level of the box, no group is open inside.
  have habove : above = [] := by
    have hlength := congrArg List.length hgroups
    rw [Env.length_outline, hlevel, List.length_append, List.length_cons, Env.length_outline]
      at hlength
    exact List.eq_nil_of_length_eq_zero (by omega)
  subst habove
  obtain rfl := List.map_eq_nil_iff.mp hkinds
  obtain ⟨g, gs, hcons, hg, -⟩ := List.map_eq_cons_iff.mp hgroups
  obtain ⟨htype, hdeliver⟩ := Prod.mk.inj hg
  have hbox : g.finishBox? m'.page = some ({ kind, spec, nodes := ns }, m.page) := by
    have hisBox : g.type.isBox = true := by
      rw [htype]
      cases kind <;> rfl
    rw [Group.finishBox?, if_pos hisBox, hpage]
    simp [Recorder.closeBox?, Recorder.within]
  obtain ⟨c, hclose, henv, hrecorder⟩ := Env.exists_closeGroup_eq_ok Meaning.name hcons hbox
  rw [hdeliver] at henv hrecorder
  refine ⟨c, hclose, hrecorder, ?_⟩
  rintro name global rfl
  rw [henv]
  exact congrArg (Option.getD · none) ((Env.getElem?_alterEntry ..).trans (if_pos rfl))

end Machine

namespace Setup

open Machine

/-- The group stack and the typesetter stay in step.  The log of boxes that an engine keeps is
    that of a history, it gives the state of the typesetter, and a box that it says was built
    holds what was added while this box was the innermost one.  In every state of a history, the
    open boxes are those of the box groups; every open group can be closed; the check at the end
    of a job finds no open box; and a box that is begun gets, at the end of its group, exactly
    the items that were added while it was the innermost open box. -/
theorem boxes_in_step (s : Setup) :
    (∀ m, s.Reaches m → (∃ steps, s.machine.History steps m ∧ eventsOf steps = m.boxEvents) ∧
        Recorder.Replays {} m.boxEvents m.page ∧
        ∀ before kind spec inside b after,
          m.boxEvents = before ++ .opened kind spec :: inside ++ .built b :: after →
          BoxEvent.Closed inside → ∃ r, Recorder.Replays {} before r ∧
            b = { kind, spec, nodes := additionsAt (r.boxes.length + 1) inside }) ∧
      ∀ steps m, s.machine.History steps m →
        (m.page.boxes.map OpenBox.kind = m.env.groups.filterMap fun g => g.type.boxKind?) ∧
        (m.env.groups ≠ [] → ∃ m', Expander.closeGroup m = .ok () m') ∧
        (∀ message, m.finish ≠ .error (.failure message)) ∧
        ∀ kind spec locator start deliver inside m',
          (m.beginBox kind spec locator start deliver).History inside m' →
          (∀ step ∈ inside, m.env.level < step.after.env.level) →
          m'.env.level = m.env.level + 1 →
          let b : Box :=
            { kind, spec, nodes := additionsAt (m.page.boxes.length + 1) (eventsOf inside) }
          ∃ c, m'.env.closeGroup Meaning.name (some m'.page) = .ok c ∧
            (deliver = .toPage → c.recorder = some (m.page.add (Box.node? (some b)))) ∧
            ∀ name global, deliver = .toRegister name global →
              c.recorder = some m.page ∧ c.env.box name = some b := by
  refine ⟨fun m h => ?_, fun steps m h => ?_⟩
  · obtain ⟨steps, hsteps, hevents⟩ := h.history
    have hreplays : Recorder.Replays {} m.boxEvents m.page :=
      hevents ▸ hsteps.replays (deliversBoxes_machine s)
    refine ⟨⟨steps, hsteps, hevents⟩, hreplays, ?_⟩
    intro before kind spec inside b after hlog hclosed
    exact (hlog ▸ hreplays).built_eq hclosed
  have hm := h.inStep (inStep_machine s)
  refine ⟨hm, hm.exists_closeGroup, hm.finish_ne, ?_⟩
  intro kind spec locator start deliver inside m' hinside hopen hlevel b
  have hbegin : (m.beginBox kind spec locator start deliver).Inside m.env.outline m.page kind spec
      deliver [] := ⟨[], [], rfl, rfl, rfl⟩
  have hend := hinside.inside hbegin fun step hstep => by
    rw [Env.length_outline, Env.length_outline]
    exact hopen step hstep
  obtain ⟨c, hclose, hrecorder, hregister⟩ := exists_closeGroup_of_inside hend hlevel
  refine ⟨c, hclose, ?_, ?_⟩
  · rintro rfl
    exact hrecorder
  · rintro name global rfl
    exact ⟨hrecorder, hregister name global rfl⟩

/-- Two nested boxes, of which the inner one is in a further group. -/
theorem boxes_in_step_nested :
    (afterText "\\hbox\x7ba\\vbox\x7b\x7bb").page.boxes.map OpenBox.kind =
        [.vertical, .horizontal] ∧
      ∃ m', Expander.closeGroup (afterText "\\hbox\x7ba\\vbox\x7b\x7bb") = .ok () m' := by
  have hkinds : (afterText "\\hbox\x7ba\\vbox\x7b\x7bb").page.boxes.map OpenBox.kind =
      [.vertical, .horizontal] := by decide +kernel
  have hreaches := reaches_afterText "\\hbox\x7ba\\vbox\x7b\x7bb"
  generalize afterText "\\hbox\x7ba\\vbox\x7b\x7bb" = m at hkinds hreaches ⊢
  obtain ⟨hhistory, hstep⟩ := boxes_in_step { options := { preset := .plain } }
  obtain ⟨⟨steps, hsteps, -⟩, -⟩ := hhistory m hreaches
  obtain ⟨heq, hclose, -⟩ := hstep steps m hsteps
  refine ⟨hkinds, hclose fun hnone => ?_⟩
  rw [hkinds, hnone] at heq
  contradiction

end Setup

end TexEngine
