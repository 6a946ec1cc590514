/-
  TexEngine.Proofs.Engine.History.Change

  Histories.  Whatever an engine does consists of changes of a few kinds: expansion,
  assignments, groups that begin and end, and material that is typeset.  A change says
  what happens to the boxes in it, and a history is a list of changes, one behind the
  other.  What happens to boxes in a history is what the engine itself has taken down when
  it happened.

  What holds of all states that an engine gets into is shown for the changes, and then
  for histories by induction; that all operations of the engine have a history is shown
  once (`History.Execute`).
-/
import TexEngine.Proofs.Engine.ExpansionFrame
import TexEngine.Proofs.Engine.Storing.State

namespace TexEngine

/-! ## Boxes in assignments and groups -/

/-- The assignment concerns a box register. -/
def Assignment.isBox {μ : Type} : Assignment μ → Bool
  | .box _ _ => true
  | _ => false

/-- The meaning that is assigned, if any. -/
def Assignment.meaning? {μ : Type} : Assignment μ → Option μ
  | .code _ v => v
  | .active _ v => v
  | _ => none

/-- The item is a box. -/
def Node.isBox : Node → Bool
  | .box _ _ _ => true
  | .voidBox => true
  | _ => false

/-- The type of the groups in which boxes of a kind are made. -/
def BoxKind.groupType : BoxKind → GroupType
  | .horizontal => .hbox
  | .vertical => .vbox

/-- The meaning is one that commands make, or \relax. -/
def Meaning.IsMade : Meaning → Prop
  | .defined _ => True
  | .charToken _ => True
  | .charDef _ => True
  | .register _ _ => True
  | .font _ => True
  | μ => μ = relax

namespace Env

/-- The environment after the contents of a box register were fetched. -/
def fetchBox {μ : Type} (env : Env μ) (name : String) (keep : Bool) : Env μ :=
  if (env.box name).isSome && !keep then env.assign (.box name (some none)) false else env

end Env

/-! ## Changes -/

namespace Machine

/-- The contents of registers, the meanings, the groups and the typeset material are as
    they were, and nothing has happened to boxes. -/
structure SameContents (m m' : Machine) : Prop where
  page : m'.page = m.page
  boxLog : m'.boxLog = m.boxLog
  boxes : m'.env.boxes = m.env.boxes
  codes : m'.env.codes = m.env.codes
  active : m'.env.active = m.env.active
  groups : m'.env.groups = m.env.groups

theorem SameContents.of_eq {m m' : Machine} (henv : m'.env = m.env) (hpage : m'.page = m.page)
    (hlog : m'.boxLog = m.boxLog) : m.SameContents m' where
  page := hpage
  boxLog := hlog
  boxes := congrArg Env.boxes henv
  codes := congrArg Env.codes henv
  active := congrArg Env.active henv
  groups := congrArg Env.groups henv

/-- The changes that everything an engine does consists of.  A meaning that is assigned
    is made by the command, or another control sequence or active character has it. -/
inductive Change (m : Machine) : List BoxEvent → Machine → Prop where
  | expand {m' : Machine} (h : m.Expands m') : Change m [] m'
  | rest {m' : Machine} (h : m.SameContents m') : Change m [] m'
  | assign (a : Assignment Meaning) (global : Bool) (hbox : a.isBox = false)
      (hmeaning : ∀ μ ∈ a.meaning?, m.env.Binds μ ∨ μ.IsMade) :
      Change m [] { m with env := m.env.assign a global }
  | afterGroup (t : Token) : Change m [] { m with env := m.env.afterGroup t }
  | openGroup (type : GroupType) (locator : Locator) (start : Token) (htype : type.isBox = false) :
      Change m [] { m with env := (m.env.openGroup type locator start none).1 }
  | openBox (kind : BoxKind) (spec : BoxSpec) (locator : Locator) (start : Token)
      (deliver : Delivery) :
      Change m [.opened kind spec]
        ({ m with page := m.page.openBox kind spec
                  env := (m.env.openGroup kind.groupType locator start deliver).1 }.logBoxes
          [.opened kind spec])
  | closeGroup {g : Group Meaning} {gs : List (Group Meaning)} {b : Box} {r : Recorder}
      {c : Env.Closing Meaning} (hgroups : m.env.groups = g :: gs)
      (hbox : g.finishBox? m.page = some (b, r))
      (h : m.env.closeGroup Meaning.name (some m.page) = .ok c) :
      Change m (BoxEvent.finish r.boxes.length b g.deliver)
        ({ m with env := c.env, page := c.recorder.getD m.page }.logBoxes
          (BoxEvent.finish r.boxes.length b g.deliver))
  | typeset (n : Node) (hbox : n.isBox = false) :
      Change m [.added m.page.boxes.length n]
        ({ m with page := m.page.add n }.logBoxes [.added m.page.boxes.length n])
  | useBox (name : String) (keep : Bool) {b : Box} (hbox : m.env.box name = some b) :
      Change m (BoxEvent.fetch m.env name keep ++ BoxEvent.deliver m.page.boxes.length b)
        ({ m with env := m.env.fetchBox name keep
                  page := m.page.add (Box.node? (some b)) }.logBoxes
          (BoxEvent.fetch m.env name keep ++ BoxEvent.deliver m.page.boxes.length b))
  | moveBox (source : String) (keep : Bool) (target : String) (global : Bool) :
      Change m (BoxEvent.fetch m.env source keep)
        ({ m with env := (m.env.fetchBox source keep).assign
                    (.box target (some (m.env.box source))) global }.logBoxes
          (BoxEvent.fetch m.env source keep))

/-- What has happened to boxes up to now, in this order. -/
def boxEvents (m : Machine) : List BoxEvent :=
  m.boxLog.reverse

/-- A change takes down what it does to boxes. -/
theorem Change.boxLog {m m' : Machine} {events : List BoxEvent} (h : m.Change events m') :
    m'.boxLog = events.reverse ++ m.boxLog := by
  cases h with
  | expand hexpands => exact (congrArg Machine.boxLog hexpands.apart :)
  | rest hsame => exact hsame.boxLog
  | _ => rfl

/-- What the end of a group takes down. -/
theorem closing_eq {m : Machine} {g : Group Meaning} {gs : List (Group Meaning)} {b : Box}
    {r : Recorder} (hgroups : m.env.groups = g :: gs) (hbox : g.finishBox? m.page = some (b, r)) :
    m.closing = BoxEvent.finish r.boxes.length b g.deliver := by
  unfold closing
  rw [hgroups]
  dsimp only
  rw [hbox]

/-! ## Histories -/

/-- A change with the states in front of it and behind it. -/
structure Step where
  before : Machine
  events : List BoxEvent
  after : Machine

/-- What happens to boxes in a list of changes. -/
def eventsOf (steps : List Step) : List BoxEvent :=
  steps.flatMap Step.events

@[simp] theorem eventsOf_nil : eventsOf [] = [] := rfl

@[simp] theorem eventsOf_append (steps steps' : List Step) :
    eventsOf (steps ++ steps') = eventsOf steps ++ eventsOf steps' :=
  List.flatMap_append

@[simp] theorem eventsOf_singleton (step : Step) : eventsOf [step] = step.events :=
  List.flatMap_singleton ..

/-- Changes that lead from one state to another. -/
inductive History (m : Machine) : List Step → Machine → Prop where
  | refl : History m [] m
  | step {steps : List Step} {m' m'' : Machine} {events : List BoxEvent}
      (h : History m steps m') (hchange : m'.Change events m'') :
      History m (steps ++ [⟨m', events, m''⟩]) m''

variable {m m' m'' : Machine} {steps steps' : List Step}

theorem History.trans (h : m.History steps m') (h' : m'.History steps' m'') :
    m.History (steps ++ steps') m'' := by
  induction h' with
  | refl => rwa [List.append_nil]
  | step h' hchange ih =>
    rw [← List.append_assoc]
    exact ih.step hchange

/-- The log of boxes is that of the changes. -/
theorem History.boxLog (h : m.History steps m') :
    m'.boxLog = (eventsOf steps).reverse ++ m.boxLog := by
  induction h with
  | refl => rfl
  | step h hchange ih =>
    rw [hchange.boxLog, ih, eventsOf_append, eventsOf_singleton, List.reverse_append,
      List.append_assoc]

theorem History.of_change {events : List BoxEvent} (h : m.Change events m') :
    m.History [⟨m, events, m'⟩] m' :=
  .step .refl h

end Machine

/-! ## The end of a group -/

namespace Env

/-- The environment at the end of its innermost group, before a box is delivered. -/
def unwound (env : Env Meaning) (g : Group Meaning) (gs : List (Group Meaning)) : Env Meaning :=
  { env.restore g.undo with groups := gs }

/-- The environment in which a box was delivered. -/
def receive (env : Env Meaning) (b : Box) : Option Delivery → Env Meaning
  | some (.toRegister name global) => env.assign (.box name (some (some b))) global
  | _ => env

end Env

/-- The typesetter to which a box was delivered. -/
def Recorder.receive (r : Recorder) (b : Box) : Option Delivery → Recorder
  | some .toPage => r.add (Box.node? (some b))
  | _ => r

namespace Env

variable {env : Env Meaning} {g : Group Meaning} {gs : List (Group Meaning)} {b : Box}
  {r page : Recorder} {nameOf : Meaning → String} {c : Closing Meaning}

/-- If there is a box to close, a group can be closed, and its box is delivered. -/
theorem exists_closeGroup_eq_ok (nameOf : Meaning → String) (hgroups : env.groups = g :: gs)
    (hbox : g.finishBox? page = some (b, r)) :
    ∃ c, env.closeGroup nameOf (some page) = .ok c ∧
      c.env = (env.unwound g gs).receive b g.deliver ∧
      c.recorder = some (r.receive b g.deliver) := by
  unfold closeGroup
  rw [hgroups]
  dsimp -zeta only
  extract_lets restored undone outer left finish
  -- `finish` is what happens when the box, if there is one, has been closed.
  have hfinish : ∀ box : Option Box, box.getD {} = b → ∃ c, finish (box, some r) = .ok c ∧
      c.env = (env.unwound g gs).receive b g.deliver ∧
      c.recorder = some (r.receive b g.deliver) := by
    rintro box rfl
    refine ⟨_, rfl, ?_, ?_⟩
    · dsimp only
      split <;> simp_all [receive, unwound, outer, undone]
    · dsimp only
      split <;> simp_all [Recorder.receive]
  unfold Group.finishBox? at hbox
  split
  · rename_i htype
    rw [if_pos htype] at hbox
    rw [hbox]
    exact hfinish (some b) rfl
  · rename_i htype
    rw [if_neg htype] at hbox
    injection hbox with hbox
    injection hbox with hb hr
    subst hb hr
    exact hfinish none rfl

/-- If there is no box to close, the end of a group fails. -/
theorem closeGroup_eq_error (nameOf : Meaning → String) (hgroups : env.groups = g :: gs)
    (hbox : g.finishBox? page = none) :
    env.closeGroup nameOf (some page) = .error (.failure Recorder.noOpenBox) := by
  unfold Group.finishBox? at hbox
  unfold closeGroup
  rw [hgroups]
  dsimp -zeta only
  extract_lets
  split
  · rename_i htype
    rw [if_pos htype] at hbox
    rw [hbox]
    rfl
  · rename_i htype
    rw [if_neg htype] at hbox
    contradiction

/-- A group that was closed was open, and there was a box to close. -/
theorem exists_finishBox?_eq_some (h : env.closeGroup nameOf (some page) = .ok c) :
    ∃ g gs b r, env.groups = g :: gs ∧ g.finishBox? page = some (b, r) := by
  obtain ⟨g, gs, hgroups, -⟩ := Legal.closeGroup_eq_ok h
  cases hbox : g.finishBox? page with
  | some p => exact ⟨g, gs, p.1, p.2, hgroups, hbox⟩
  | none =>
    rw [closeGroup_eq_error nameOf hgroups hbox] at h
    contradiction

/-- What the end of a group leads to. -/
theorem closeGroup_eq_receive (hgroups : env.groups = g :: gs)
    (hbox : g.finishBox? page = some (b, r)) (h : env.closeGroup nameOf (some page) = .ok c) :
    c.env = (env.unwound g gs).receive b g.deliver ∧
      c.recorder = some (r.receive b g.deliver) := by
  obtain ⟨c', hc', henv, hrecorder⟩ := exists_closeGroup_eq_ok nameOf hgroups hbox
  rw [h] at hc'
  injection hc' with hc'
  exact hc' ▸ ⟨henv, hrecorder⟩

end Env

end TexEngine
