/-
  TexEngine.Proofs.Engine.Scoping.Assignment

  The scope of assignments.  A command gives its place a value, and the group in which it
  does so ends.  Then the place has the new value if the assignment was global, by
  \globaldefs or by \global, and otherwise what was there in front of the group.  One thing
  comes behind the end of the group: if it is the group of a box that goes to a register,
  the register holds this box, whatever was assigned to it in the group.
-/
import TexEngine.Proofs.Engine.Scoping.Command
import TexEngine.Proofs.Engine.Scoping.Places

namespace TexEngine

open Eng

/-! ## The end of a group -/

/-- What the end of a group gives to a register, for the box of the group. -/
def Delivery.setting? (b : Box) : Option Delivery → Option (Setting Meaning)
  | some (.toRegister name _) => some ⟨.box name, some b⟩
  | _ => none

/-- What the end of the innermost group gives to a register. -/
def Machine.delivery? (m : Machine) : Option (Setting Meaning) :=
  m.env.groups.head?.bind fun g =>
    (g.finishBox? m.page).bind fun (b, _) => Delivery.setting? b g.deliver

theorem Env.lookup_receive (env : Env Meaning) (b : Box) (deliver : Option Delivery) :
    (∀ d ∈ Delivery.setting? b deliver, (env.receive b deliver).lookup d.place = d.value) ∧
      ∀ p, (∀ d ∈ Delivery.setting? b deliver, d.place ≠ p) →
        (env.receive b deliver).lookup p = env.lookup p := by
  match deliver with
  | none => exact ⟨nofun, fun p _ => rfl⟩
  | some .toPage => exact ⟨nofun, fun p _ => rfl⟩
  | some (.toRegister name global) =>
    have hlookup : (env.receive b (some (.toRegister name global))).lookup =
        Function.update env.lookup (.box name) (some b) :=
      env.lookup_assign_setting ⟨.box name, some b⟩ global
    rw [hlookup]
    refine ⟨fun d hd => ?_, fun p hp => ?_⟩
    · obtain rfl := Option.mem_some.mp hd
      exact Function.update_self ..
    · exact Function.update_of_ne (Ne.symm (hp _ rfl)) ..

namespace Expander

variable {m m' : Machine}

theorem env_of_forM_trace {texts : List String}
    (h : (texts.forM fun text => trace .info .environment fun _ => text) m = .ok () m') :
    m'.env = m.env := by
  induction texts generalizing m with
  | nil =>
    obtain ⟨-, rfl⟩ := EStateM.Result.ok.inj h
    rfl
  | cons text texts ih =>
    obtain ⟨⟨⟩, m₁, htrace, h⟩ := exists_of_bind_eq_ok h
    have hnote := (trace_apply .info .environment (fun _ => text) m).symm.trans htrace
    obtain ⟨-, rfl⟩ := EStateM.Result.ok.inj hnote
    have hrest := ih h
    exact hrest

/-- The end of a group restores what its undo list remembers, and delivers its box. -/
theorem lookup_of_closeGroup (h : closeGroup m = .ok () m') :
    ∃ g gs, m.env.groups = g :: gs ∧ (∀ d ∈ m.delivery?, m'.env.lookup d.place = d.value) ∧
      ∀ p, (∀ d ∈ m.delivery?, d.place ≠ p) →
        m'.env.lookup p = (m.env.unwound g gs).lookup p := by
  unfold closeGroup at h
  rw [bind_of_ok (get_apply m)] at h
  cases hclose : m.env.closeGroup Meaning.name (some m.page) with
  | error f =>
    rw [hclose] at h
    contradiction
  | ok c =>
    obtain ⟨g, gs, b, r, hgroups, hbox⟩ := Env.exists_finishBox?_eq_some hclose
    obtain ⟨henv, -⟩ := Env.closeGroup_eq_receive hgroups hbox hclose
    have hdelivery : m.delivery? = Delivery.setting? b g.deliver := by
      rw [Machine.delivery?, hgroups, List.head?_cons, Option.bind_some, hbox, Option.bind_some]
    rw [hclose] at h
    obtain ⟨⟨⟩, m₁, hset, h⟩ := exists_of_bind_eq_ok h
    obtain ⟨-, rfl⟩ := EStateM.Result.ok.inj hset
    -- The traces and the tokens that are inserted leave the environment alone.
    obtain ⟨⟨⟩, m₂, htrace, h⟩ := exists_of_bind_eq_ok h
    obtain ⟨-, rfl⟩ := EStateM.Result.ok.inj h
    have hm' : m₂.env = (m.env.unwound g gs).receive b g.deliver :=
      (env_of_forM_trace htrace).trans henv
    refine ⟨g, gs, hgroups, ?_⟩
    show (∀ d ∈ m.delivery?, m₂.env.lookup d.place = d.value) ∧ _
    rw [hdelivery, hm']
    exact Env.lookup_receive _ b g.deliver

end Expander

/-! ## An assignment as a course -/

/-- A command whose assignment is local has been told to assign locally. -/
theorem Machine.givenScope_eq_false {m : Machine} {μ : Meaning}
    (h : m.assignsGlobally μ = false) : m.givenScope = false := by
  unfold assignsGlobally at h
  split at h
  · exact (Bool.or_eq_false_iff.mp h).1
  · exact h

theorem Eng.insertAfterAssignment_eq_ok {m m' : Machine}
    (h : insertAfterAssignment m = .ok () m') : m.env.SameScopes m'.env := by
  unfold insertAfterAssignment at h
  rw [bind_of_ok (env_apply m)] at h
  cases hafter : m.env.afterAssignment with
  | none =>
    rw [hafter] at h
    obtain ⟨-, rfl⟩ := EStateM.Result.ok.inj h
    exact ⟨rfl, rfl, rfl⟩
  | some t =>
    rw [hafter] at h
    obtain ⟨-, rfl⟩ := EStateM.Result.ok.inj h
    exact ⟨rfl, rfl, rfl⟩

namespace Expander

variable {x : Expander} {μ : Meaning} {t : Token} {run : Eng Unit} {m m' : Machine}

/-- An assignment that succeeds has read an effect.  If this gives a place a value, then the
    place is assigned to after everything was read, and behind that, only other places are. -/
theorem exists_course_of_assignment (hx : x.Disciplined) (hrun : x.assignment? μ t = some run)
    (h : run m = .ok () m') :
    ∃ e n, x.read μ t m.givenScope m = .ok e n ∧ e.IsAssignment x ∧ ∀ s ∈ e.setting,
      ∃ es es', m.env.Course es n.env ∧ (∀ ev ∈ es, ev.InReading s.place m.givenScope) ∧
        (n.env.assign s.assignment (m.assignsGlobally μ)).Course es' m'.env ∧
          ∀ ev ∈ es', ev.IsQuiet ∧ ScopeEvent.Avoids s.place [ev] := by
  rw [assignment?_apply hrun] at h
  obtain ⟨e, n, hread, h⟩ := exists_of_bind_eq_ok h
  obtain ⟨⟨⟩, n₁, hperform, h⟩ := exists_of_bind_eq_ok h
  obtain ⟨hcourse, hrest⟩ := read_prepares hx μ t m e n hread
  refine ⟨e, n, hread, read_gives μ t _ m e n hread, fun s hs => ?_⟩
  obtain ⟨es, hes, hin⟩ := hcourse s hs
  -- The assignment stands between what was read and the rest of the effect.
  rw [Effect.perform, Option.mem_def.mp hs] at hperform
  obtain ⟨⟨⟩, n₂, hassign, hperform⟩ := exists_of_bind_eq_ok hperform
  obtain ⟨-, rfl⟩ := EStateM.Result.ok.inj hassign
  obtain ⟨es', hes', hquiet⟩ := hrest s hs _ _ hperform
  exact ⟨es, es', hes, hin, hes'.rest (insertAfterAssignment_eq_ok h), hquiet⟩

/-- The scope of assignments.

    Every group that is open in a state that an engine gets into began in some environment
    on the way to it.  In such a group, a command with its prefixes makes an assignment, and
    later the group ends, after other places were assigned to and other groups began and
    ended in it.  If \globaldefs is positive, or if it is zero and \global is among the
    prefixes or the command is \gdef or \xdef, the place has its new value then.  Otherwise
    it has the value from in front of the group, provided it was not assigned to globally in
    the group.  Only the register to which the group delivers a box holds this box in any
    case. -/
theorem assignment_scope (fuel depth : Nat) :
    let x := ofDepth fuel depth
    (∀ (setup : Setup) (m : Machine), setup.Reaches m → m.env.groups ≠ [] →
      ∃ (es₀ : List ScopeEvent) (before : Env Meaning) (es : List ScopeEvent),
        setup.machine.env.Course es₀ before ∧ before.Entered 0 es m.env) ∧
    ∀ (before : Env Meaning) (es : List ScopeEvent) (m m₁ m₂ : Machine) (fs : List Modifier)
      (t c : Token) (μ : Meaning) (run : Eng Unit), before.Entered 0 es m.env →
      m.modifiers = {} → x.Begins fs t m c μ m₁ → x.assignment? μ c = some run →
      x.execute t m = .ok () m₂ →
      ∃ e n, x.read μ c m₁.givenScope m₁ = .ok e n ∧ e.IsAssignment x ∧
        ∀ s ∈ e.setting, s.place.IsScalar → (∀ q global, .assigned q global ∈ es → q.IsScalar) →
        ∀ (es' : List ScopeEvent) (m₃ m₄ : Machine), m₂.env.Course es' m₃.env →
          ScopeEvent.depthAfter? 0 es' = some 0 → ScopeEvent.Avoids s.place es' →
          closeGroup m₃ = .ok () m₄ →
          let isGlobal := 0 < m.env.count "globaldefs" ∨ m.env.count "globaldefs" = 0 ∧
            (.isGlobal ∈ fs ∨ μ.isAlwaysGlobal = true)
          (∀ d ∈ m₃.delivery?, m₄.env.lookup d.place = d.value) ∧
            ((∀ d ∈ m₃.delivery?, d.place ≠ s.place) →
              (isGlobal → m₄.env.lookup s.place = s.value) ∧
              (¬ isGlobal → .assigned s.place true ∉ es →
                m₄.env.lookup s.place = before.lookup s.place)) := by
  intro x
  refine ⟨fun setup m hreaches hopen => ?_, ?_⟩
  · obtain ⟨es, hcourse⟩ := hreaches.course
    obtain ⟨es₀, before, es₁, -, hbefore, hentered⟩ :=
      hcourse.exists_entered rfl (List.length_pos_iff.mpr hopen)
    exact ⟨es₀, before, es₁, hbefore, hentered⟩
  · intro before es m m₁ m₂ fs t c μ run hentered hmodifiers hbegins hrun hexecute
    have hx : x.Disciplined := ofDepth_disciplined fuel depth
    obtain ⟨m', hdone, rfl⟩ := hbegins.execute hrun hexecute
    obtain ⟨e, n, hread, heffect, hsettings⟩ := exists_course_of_assignment hx hrun hdone
    refine ⟨e, n, hread, heffect, ?_⟩
    intro s hs hscalar hscalars es' m₃ m₄ htail hdepth havoids hclose isGlobal
    obtain ⟨es₁, es₂, hes₁, hin, hes₂, hbehind⟩ := hsettings s hs
    obtain ⟨g, gs, hgroups, hdelivered, hothers⟩ := lookup_of_closeGroup hclose
    have hglobal : m₁.assignsGlobally μ = true ↔ isGlobal :=
      hbegins.assignsGlobally_iff hx hmodifiers
    -- Behind the assignment, nothing assigns to the place until the group ends.
    have hquiet : ScopeEvent.Avoids s.place (es₂ ++ es') := by
      refine ScopeEvent.Avoids.append (fun q global hq => ?_) havoids
      exact (hbehind _ hq).2 q global (List.mem_singleton.mpr rfl)
    have hend : (n.env.assign s.assignment (m₁.assignsGlobally μ)).Course (es₂ ++ es') m₃.env :=
      hes₂.trans htail
    refine ⟨hdelivered, fun hother => ?_⟩
    rw [hothers s.place hother]
    refine ⟨fun his => ?_, fun hnot hnever => ?_⟩
    · rw [hglobal.mpr his] at hend
      exact Env.lookup_unwound_set_global n.env hend hquiet hgroups
    · have hlocal : m₁.assignsGlobally μ = false :=
        Bool.eq_false_iff.mpr fun h => hnot (hglobal.mp h)
      rw [hlocal] at hend
      rw [Machine.givenScope_eq_false hlocal] at hin
      obtain ⟨names, henv, -⟩ := hbegins.relaxes hx
      obtain ⟨es₀, hes₀, hrelaxed⟩ := henv.course
      -- In front of the assignment, the place is assigned to only locally.
      have hread : ∀ ev ∈ es₀ ++ es₁, ev.InReading s.place false := by
        refine List.forall_mem_append.mpr ⟨fun ev hev => ?_, hin⟩
        obtain ⟨name, rfl⟩ := hrelaxed ev hev
        exact .inl (.code name)
      have hfront : ScopeEvent.LocalAt s.place (es ++ (es₀ ++ es₁)) :=
        (ScopeEvent.LocalAt.of_isScalar hscalar hscalars hnever).append
          (ScopeEvent.localAt_of_inReading hscalar hread)
      have hdepth' : ScopeEvent.depthAfter? 0 (es₂ ++ es') = some 0 := by
        have hnone : ∀ ev ∈ es₂, ev.InReading s.place false :=
          fun ev hev => .inl (hbehind ev hev).1
        rw [ScopeEvent.depthAfter?_append, ScopeEvent.depthAfter?_of_inReading hnone]
        exact hdepth
      have hentered' := hentered.course (hes₀.trans hes₁)
        (ScopeEvent.depthAfter?_of_inReading hread 0)
      exact hentered'.lookup_unwound_set hfront hend hdepth' hquiet.localAt hgroups

/-! ## Boxes that are copied in a group -/

/-- An engine in which \global, \setbox and \copy have their primitive meanings, and in which
    a register holds a box with one item. -/
def holding : Machine where
  env := ((((Env.initial .plain false).assign
    (.code "global" (some (.modifier .isGlobal))) false).assign
    (.code "setbox" (some (.assigner .setBox))) false).assign
    (.code "copy" (some (.command (.useBox true)))) false).assign
    (.box "1" (some (some { nodes := [.par] }))) false

/-- In a group, which is that of a box for register 0 or not, another box is about to be copied
    to this register. -/
def copying (inBox : Bool) : Machine :=
  Machine.feed
    (if inBox then
      { holding with
        page := holding.page.openBox .horizontal .natural
        env := (holding.env.openGroup .hbox {} (.cs "hbox") (some (.toRegister "0" false))).1 }
    else { holding with env := (holding.env.openGroup .simple {} (.char 123 .beginGroup) none).1 })
    [.cs "setbox", .other 48, .cs "copy", .other 49, .space]

/-- The state in which the assignment begins, behind \global. -/
def copyBegins (inBox : Bool) : Machine :=
  (((ofDepth 9 1).dispatch (.cs "global")).after (copying inBox)).announced (.cs "setbox")

/-- The state behind the assignment. -/
def copied (inBox : Bool) : Machine :=
  ((ofDepth 9 1).execute (.cs "global")).after (copying inBox)

/-- The register and the number of items of the box that it is set to. -/
def itemsSet : Setting Meaning → Option (String × Option Nat)
  | ⟨.box name, b⟩ => some (name, Option.map (·.nodes.length) b)
  | _ => none

theorem eq_of_itemsSet {s : Setting Meaning} {name : String} {n : Nat}
    (h : itemsSet s = some (name, some n)) :
    ∃ b : Box, s = ⟨.box name, some b⟩ ∧ b.nodes.length = n := by
  unfold itemsSet at h
  split at h
  · rename_i name' b
    obtain ⟨rfl, hb⟩ := Prod.mk.inj (Option.some.inj h)
    obtain ⟨b, rfl, hlength⟩ := Option.map_eq_some_iff.mp hb
    exact ⟨b, rfl, hlength⟩
  · contradiction

variable (inBox : Bool)

theorem entered_copying : holding.env.Entered 0 [] (copying inBox).env := by
  cases inBox with
  | false => exact .start holding.env .simple {} (.char 123 .beginGroup) none
  | true => exact .start holding.env .hbox {} (.cs "hbox") (some (.toRegister "0" false))

theorem begins_copying : (ofDepth 9 1).Begins [.isGlobal] (.cs "global") (copying inBox)
    (.cs "setbox") (.assigner .setBox) (copyBegins inBox) := by
  have hglobal : ∀ b, meaningIn (copying b).env (.cs "global") = some (.modifier .isGlobal) := by
    decide +kernel
  have hnext : ∀ b, ((ofDepth 9 1).dispatch (.cs "global")).value? (copying b) =
      some (some (.cs "setbox")) := by
    decide +kernel
  have hsetbox : ∀ b, meaningIn (((ofDepth 9 1).dispatch (.cs "global")).after (copying b)).env
      (.cs "setbox") = some (.assigner .setBox) := by
    decide +kernel
  exact .modifier rfl (hglobal inBox) (eq_ok_of_value? (hnext inBox)) (.command rfl (hsetbox inBox))

theorem execute_copying :
    (ofDepth 9 1).execute (.cs "global") (copying inBox) = .ok () (copied inBox) := by
  have hvalue : ∀ b, ((ofDepth 9 1).execute (.cs "global")).value? (copying b) = some () := by
    decide +kernel
  exact eq_ok_of_value? (hvalue inBox)

theorem closeGroup_copied :
    closeGroup (copied inBox) = .ok () (closeGroup.after (copied inBox)) := by
  have hvalue : ∀ b, closeGroup.value? (copied b) = some () := by decide +kernel
  exact eq_ok_of_value? (hvalue inBox)

/-- The copy has one item. -/
theorem exists_setting_of_copyBegins {e : Effect} {n : Machine}
    (h : (ofDepth 9 1).read (.assigner .setBox) (.cs "setbox") (copyBegins inBox).givenScope
      (copyBegins inBox) = .ok e n) :
    ∃ b : Box, e.setting = some ⟨.box "0", some b⟩ ∧ b.nodes.length = 1 := by
  have hset : ∀ b, (((ofDepth 9 1).read (.assigner .setBox) (.cs "setbox")
      (copyBegins b).givenScope).value? (copyBegins b)).bind (·.setting.bind itemsSet) =
        some ("0", some 1) := by
    decide +kernel
  have hitems := hset inBox
  rw [value?, h] at hitems
  obtain ⟨s, hs, hitems⟩ : ∃ s, e.setting = some s ∧ itemsSet s = some ("0", some 1) :=
    Option.bind_eq_some_iff.mp hitems
  obtain ⟨b, rfl, hlength⟩ := eq_of_itemsSet hitems
  exact ⟨b, hs, hlength⟩

/-- In a simple group, the register has the copy when the group has ended. -/
theorem assignment_scope_copy :
    ∃ e n, (ofDepth 9 1).read (.assigner .setBox) (.cs "setbox") (copyBegins false).givenScope
        (copyBegins false) = .ok e n ∧
      ∃ b : Box, e.setting = some ⟨.box "0", some b⟩ ∧ b.nodes.length = 1 ∧
        (closeGroup.after (copied false)).env.lookup (.box "0") = some b := by
  obtain ⟨e, n, hread, -, hscope⟩ := (assignment_scope 9 1).2 holding.env [] (copying false)
    (copyBegins false) (copied false) [.isGlobal] (.cs "global") (.cs "setbox")
    (.assigner .setBox) _ (entered_copying false) rfl (begins_copying false) rfl
    (execute_copying false)
  obtain ⟨b, hs, hlength⟩ := exists_setting_of_copyBegins false hread
  have hdelivery : (copied false).delivery?.isNone = true := by decide +kernel
  have hzero : (copying false).env.count "globaldefs" = 0 := by decide +kernel
  obtain ⟨-, hend⟩ := hscope ⟨.box "0", some b⟩ hs True.intro nofun [] (copied false) _ .refl rfl
    nofun (closeGroup_copied false)
  have hvalue := (hend (by simp [Option.isNone_iff_eq_none.mp hdelivery])).1
    (.inr ⟨hzero, .inl (List.mem_singleton.mpr rfl)⟩)
  exact ⟨e, n, hread, b, hs, hlength, hvalue⟩

/-- In the group of a box for this register, the register has the box of the group instead. -/
theorem copy_lost_in_box :
    holding.env.Entered 0 [] (copying true).env ∧ (copying true).modifiers = {} ∧
      (ofDepth 9 1).Begins [.isGlobal] (.cs "global") (copying true) (.cs "setbox")
        (.assigner .setBox) (copyBegins true) ∧
      (ofDepth 9 1).execute (.cs "global") (copying true) = .ok () (copied true) ∧
      closeGroup (copied true) = .ok () (closeGroup.after (copied true)) ∧
      (copying true).env.count "globaldefs" = 0 ∧
      ∃ e n, (ofDepth 9 1).read (.assigner .setBox) (.cs "setbox") (copyBegins true).givenScope
          (copyBegins true) = .ok e n ∧
        ∃ b : Box, e.setting = some ⟨.box "0", some b⟩ ∧
          (closeGroup.after (copied true)).env.lookup (.box "0") ≠ some b := by
  have hzero : (copying true).env.count "globaldefs" = 0 := by decide +kernel
  have hempty : ((closeGroup.after (copied true)).env.box "0").map (·.nodes.length) = some 0 := by
    decide +kernel
  obtain ⟨m₂, hrun, -⟩ := (begins_copying true).execute rfl (execute_copying true)
  obtain ⟨e, n, hread, -⟩ := exists_course_of_assignment (x := ofDepth 9 1) (μ := .assigner .setBox)
    (t := .cs "setbox") (ofDepth_disciplined 9 1) rfl hrun
  obtain ⟨b, hs, hlength⟩ := exists_setting_of_copyBegins true hread
  have hlost : (closeGroup.after (copied true)).env.lookup (.box "0") ≠ some b := by
    intro hlookup
    have hbox : (closeGroup.after (copied true)).env.box "0" = some b := hlookup
    rw [hbox, Option.map_some, hlength] at hempty
    exact absurd hempty (by decide)
  exact ⟨entered_copying true, rfl, begins_copying true, execute_copying true,
    closeGroup_copied true, hzero, e, n, hread, b, hs, hlost⟩

end Expander

end TexEngine
