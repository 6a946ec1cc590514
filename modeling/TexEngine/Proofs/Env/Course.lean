/-
  TexEngine.Proofs.Env.Course

  The course of an environment: places are assigned to, groups begin and end, and nothing
  else happens to what can be looked up.

  A place is followed from the beginning of a group.  As long as the place is assigned to
  only locally, the end of the group brings back what was there in front of it, whatever
  groups have begun and ended meanwhile (`InGroup`).  A global assignment changes what is
  found behind all open groups at once.
-/
import TexEngine.Proofs.Env.Characters

namespace TexEngine

/-! ## Events -/

/-- What happens to the places and the groups of an environment. -/
inductive ScopeEvent where
  | assigned (p : Place) (global : Bool)
  | opened
  | closed
  deriving DecidableEq, Repr

namespace ScopeEvent

/-- The number of open groups behind some events, if there are `n` in front of them; `none`
    if more groups are closed than there are. -/
def depthAfter? : Nat → List ScopeEvent → Option Nat
  | n, [] => some n
  | n, .assigned _ _ :: es => depthAfter? n es
  | n, .opened :: es => depthAfter? (n + 1) es
  | 0, .closed :: _ => none
  | n + 1, .closed :: es => depthAfter? n es

theorem depthAfter?_append (n : Nat) (es es' : List ScopeEvent) :
    depthAfter? n (es ++ es') = (depthAfter? n es).bind (depthAfter? · es') := by
  induction es generalizing n with
  | nil => rfl
  | cons e es ih =>
    cases e with
    | assigned p global => exact ih n
    | opened => exact ih (n + 1)
    | closed =>
      cases n with
      | zero => rfl
      | succ n => exact ih n

/-- Assignments neither open nor close groups. -/
theorem depthAfter?_of_forall_assigned {es : List ScopeEvent}
    (h : ∀ e ∈ es, ∃ p global, e = .assigned p global) (n : Nat) :
    depthAfter? n es = some n := by
  induction es with
  | nil => rfl
  | cons e es ih =>
    rw [List.forall_mem_cons] at h
    obtain ⟨⟨p, global, rfl⟩, h⟩ := h
    exact ih h

/-- No event assigns to the place, or to one that groups take for it. -/
def Avoids (p : Place) (es : List ScopeEvent) : Prop :=
  ∀ q global, .assigned q global ∈ es → q.key ≠ p.key

/-- The place is assigned to only locally, and nothing else is assigned to that groups take
    for it. -/
def LocalAt (p : Place) (es : List ScopeEvent) : Prop :=
  ∀ q global, .assigned q global ∈ es → q.key = p.key → global = false ∧ q = p

variable {p : Place} {es es' : List ScopeEvent}

theorem Avoids.localAt (h : Avoids p es) : LocalAt p es :=
  fun q global hq hkey => absurd hkey (h q global hq)

theorem Avoids.append (h : Avoids p es) (h' : Avoids p es') : Avoids p (es ++ es') :=
  fun q global hq => (List.mem_append.mp hq).elim (h q global) (h' q global)

theorem LocalAt.append (h : LocalAt p es) (h' : LocalAt p es') : LocalAt p (es ++ es') :=
  fun q global hq => (List.mem_append.mp hq).elim (h q global) (h' q global)

theorem LocalAt.of_append_left (h : LocalAt p (es ++ es')) : LocalAt p es :=
  fun q global hq => h q global (List.mem_append_left _ hq)

theorem Avoids.of_append_left (h : Avoids p (es ++ es')) : Avoids p es :=
  fun q global hq => h q global (List.mem_append_left _ hq)

/-- Assignments to scalar places are told apart by the groups. -/
theorem LocalAt.of_isScalar (hp : p.IsScalar)
    (hes : ∀ q global, .assigned q global ∈ es → q.IsScalar) (hglobal : .assigned p true ∉ es) :
    LocalAt p es := by
  intro q global hq hkey
  obtain rfl := Place.eq_of_key_eq (hes q global hq) hp hkey
  cases global with
  | false => exact ⟨rfl, rfl⟩
  | true => exact absurd hq hglobal

end ScopeEvent

/-! ## Courses -/

section Course

variable {μ : Type}

namespace Env

/-- All places have the same contents, now and behind the open groups. -/
structure SameScopes (env env' : Env μ) : Prop where
  lookup : env'.lookup = env.lookup
  blank : env'.blank = env.blank
  undo : env'.groups.map Group.undo = env.groups.map Group.undo

/-- Events lead from one environment to another. -/
inductive Course (env : Env μ) : List ScopeEvent → Env μ → Prop where
  | refl : Course env [] env
  | rest {es : List ScopeEvent} {env₁ env₂ : Env μ} (h : Course env es env₁)
      (hsame : env₁.SameScopes env₂) : Course env es env₂
  | assign {es : List ScopeEvent} {env₁ : Env μ} (h : Course env es env₁) (a : Assignment μ)
      (global : Bool) : Course env (es ++ [.assigned a.place global]) (env₁.assign a global)
  | openGroup {es : List ScopeEvent} {env₁ : Env μ} (h : Course env es env₁) (type : GroupType)
      (locator : Locator) (start : Token) (deliver : Option Delivery) :
      Course env (es ++ [.opened]) (env₁.openGroup type locator start deliver).1
  | closeGroup {es : List ScopeEvent} {env₁ : Env μ} {g : Group μ} {gs : List (Group μ)}
      (h : Course env es env₁) (hgroups : env₁.groups = g :: gs) :
      Course env (es ++ [.closed]) { env₁.restore g.undo with groups := gs }

/-- The environment is in a group that began in the environment `before`.  The events have
    happened since, and `n` further groups are open inside of this one. -/
def Entered (before : Env μ) (n : Nat) (es : List ScopeEvent) (env : Env μ) : Prop :=
  ∃ type locator start deliver, (before.openGroup type locator start deliver).1.Course es env ∧
    ScopeEvent.depthAfter? 0 es = some n

namespace Course

variable {env env₁ env₂ : Env μ} {es es' : List ScopeEvent}

theorem trans (h : env.Course es env₁) (h' : env₁.Course es' env₂) :
    env.Course (es ++ es') env₂ := by
  induction h' with
  | refl => rwa [List.append_nil]
  | rest h' hsame ih => exact ih.rest hsame
  | assign h' a global ih =>
    rw [← List.append_assoc]
    exact ih.assign a global
  | openGroup h' type locator start deliver ih =>
    rw [← List.append_assoc]
    exact ih.openGroup type locator start deliver
  | closeGroup h' hgroups ih =>
    rw [← List.append_assoc]
    exact ih.closeGroup hgroups

theorem of_sameScopes (h : env.SameScopes env₁) : env.Course [] env₁ :=
  .rest .refl h

theorem of_assign (env : Env μ) (a : Assignment μ) (global : Bool) :
    env.Course [.assigned a.place global] (env.assign a global) :=
  .assign .refl a global

end Course

/-! ## Groups that are open -/

theorem length_groups_assign (env : Env μ) (a : Assignment μ) (global : Bool) :
    (env.assign a global).groups.length = env.groups.length := by
  have htypes := congrArg List.length (types_assign env a global)
  simpa using htypes

theorem Entered.start (before : Env μ) (type : GroupType) (locator : Locator) (start : Token)
    (deliver : Option Delivery) :
    before.Entered 0 [] (before.openGroup type locator start deliver).1 :=
  ⟨type, locator, start, deliver, .refl, rfl⟩

/-- Further events in the group. -/
theorem Entered.course {before env env' : Env μ} {n k : Nat} {es es' : List ScopeEvent}
    (h : before.Entered n es env) (hcourse : env.Course es' env')
    (hdepth : ScopeEvent.depthAfter? n es' = some k) : before.Entered k (es ++ es') env' := by
  obtain ⟨type, locator, start, deliver, hbefore, hes⟩ := h
  refine ⟨type, locator, start, deliver, hbefore.trans hcourse, ?_⟩
  rw [ScopeEvent.depthAfter?_append, hes]
  exact hdepth

/-- Every open group has begun at some time. -/
theorem Course.exists_entered {env env' : Env μ} {es : List ScopeEvent} (h : env.Course es env')
    (hbottom : env.groups = []) {n : Nat} (hn : n < env'.groups.length) :
    ∃ es₀ before es₁, es = es₀ ++ .opened :: es₁ ∧ env.Course es₀ before ∧
      before.Entered n es₁ env' := by
  -- What is open behind the last event was open in front of it, or begins with it.
  induction h generalizing n with
  | refl =>
    rw [hbottom] at hn
    exact absurd hn (Nat.not_lt_zero n)
  | rest h hsame ih =>
    have hlength := congrArg List.length hsame.undo
    rw [List.length_map, List.length_map] at hlength
    obtain ⟨es₀, before, es₁, hes, hbefore, hentered⟩ := ih (hlength ▸ hn)
    refine ⟨es₀, before, es₁, hes, hbefore, ?_⟩
    have hrest := hentered.course (.of_sameScopes hsame) rfl
    rwa [List.append_nil] at hrest
  | assign h a global ih =>
    rw [length_groups_assign] at hn
    obtain ⟨es₀, before, es₁, rfl, hbefore, hentered⟩ := ih hn
    exact ⟨es₀, before, _, List.append_assoc .., hbefore,
      hentered.course (.of_assign _ a global) rfl⟩
  | openGroup h type locator start deliver ih =>
    cases n with
    | zero => exact ⟨_, _, [], rfl, h, .start _ type locator start deliver⟩
    | succ n =>
      obtain ⟨es₀, before, es₁, rfl, hbefore, hentered⟩ := ih (Nat.lt_of_succ_lt_succ hn)
      exact ⟨es₀, before, _, List.append_assoc .., hbefore,
        hentered.course (.openGroup .refl type locator start deliver) rfl⟩
  | closeGroup h hgroups ih =>
    obtain ⟨es₀, before, es₁, rfl, hbefore, hentered⟩ := @ih (n + 1) (by
      rw [hgroups]
      exact Nat.succ_lt_succ hn)
    exact ⟨es₀, before, _, List.append_assoc .., hbefore,
      hentered.course (.closeGroup .refl hgroups) rfl⟩

/-! ## The contents of a place -/

variable {env env' : Env μ} {p : Place} {es : List ScopeEvent}

theorem SameScopes.history (h : env.SameScopes env') (p : Place) :
    env'.history p = env.history p := by
  unfold Env.history
  rw [h.lookup, h.blank]
  apply Valuation.history_congr rfl
  have hundo := congrArg (List.map fun undo => undo.filter (·.place = p)) h.undo
  rwa [List.map_map, List.map_map] at hundo

/-- Behind the innermost group, a place has the content that was to be found there. -/
theorem history_unwound {g : Group μ} {gs : List (Group μ)} (h : env.groups = g :: gs) (p : Place) :
    Env.history { env.restore g.undo with groups := gs } p = (env.history p).tail := by
  show Valuation.history p (env.restore g.undo).blank _ gs =
    (Valuation.history p _ _ env.groups).tail
  rw [lookup_withGroups, blank_restore, lookup_restore, h]
  rfl

/-! ## Local assignments in a group -/

/-- The environment is in a group that began where the place had a certain history, and in
    `n` further groups inside of this one. -/
structure InGroup (p : Place) (before : List (p.Content μ)) (n : Nat) (env : Env μ) : Prop where
  knows : ∀ g ∈ env.groups.take (n + 1), g.Knows p
  history : (env.history p).drop (n + 1) = before

namespace InGroup

variable {before : List (p.Content μ)} {n k : Nat}

theorem start (env : Env μ) (p : Place) (type : GroupType) (locator : Locator) (start : Token)
    (deliver : Option Delivery) :
    InGroup p (env.history p) 0 (env.openGroup type locator start deliver).1 where
  knows := by
    intro g hg
    obtain rfl := List.mem_singleton.mp hg
    simp [Group.Knows]
  history := by
    rw [history_openGroup]
    rfl

theorem sameScopes (h : InGroup p before n env) (hsame : env.SameScopes env') :
    InGroup p before n env' where
  knows := by
    intro g hg
    have hundo : g.undo ∈ (env'.groups.map Group.undo).take (n + 1) := by
      rw [← List.map_take]
      exact List.mem_map_of_mem hg
    rw [hsame.undo, ← List.map_take] at hundo
    obtain ⟨g', hg', hundo⟩ := List.mem_map.mp hundo
    intro a ha
    exact h.knows g' hg' a (hundo ▸ ha)
  history := by
    rw [hsame.history]
    exact h.history

theorem assign (h : InGroup p before n env) (a : Assignment μ) (global : Bool)
    (ha : a.place.key = p.key → global = false ∧ a.place = p) :
    InGroup p before n (env.assign a global) where
  knows := by
    rw [← a.key_eq_key_place] at ha
    exact knows_assign env a global _ (fun hkey => (ha hkey).2) h.knows
  history := by
    rw [← a.key_eq_key_place] at ha
    by_cases hkey : a.key = p.key
    · obtain ⟨rfl, hplace⟩ := ha hkey
      have hhead : ∀ g ∈ env.groups.head?, g.Knows p := by
        intro g hg
        have hknows := h.knows
        cases hgs : env.groups with
        | nil => simp [hgs] at hg
        | cons k ks =>
          rw [hgs, List.head?_cons, Option.mem_some_iff] at hg
          rw [hgs, List.take_succ_cons] at hknows
          exact hg ▸ hknows k List.mem_cons_self
      rw [← List.drop_tail, tail_history_assign env a hplace hhead, List.drop_tail]
      exact h.history
    · rw [history_assign_of_ne env a global hkey]
      exact h.history

theorem openGroup (h : InGroup p before n env) (type : GroupType) (locator : Locator)
    (start : Token) (deliver : Option Delivery) :
    InGroup p before (n + 1) (env.openGroup type locator start deliver).1 where
  knows := by
    show ∀ g ∈ (_ :: env.groups).take (n + 1 + 1), g.Knows p
    rw [List.take_succ_cons, List.forall_mem_cons]
    exact ⟨by simp [Group.Knows], h.knows⟩
  history := by
    rw [history_openGroup]
    exact h.history

theorem closeGroup (h : InGroup p before (n + 1) env) {g : Group μ} {gs : List (Group μ)}
    (hgroups : env.groups = g :: gs) :
    InGroup p before n { env.restore g.undo with groups := gs } where
  knows := by
    have hknows := h.knows
    rw [hgroups, List.take_succ_cons, List.forall_mem_cons] at hknows
    exact hknows.2
  history := by
    rw [history_unwound hgroups, List.drop_tail]
    exact h.history

/-- A course that assigns to the place only locally does not change what is found behind the
    group in which it takes place. -/
theorem course (h : InGroup p before n env) (hcourse : env.Course es env')
    (hdepth : ScopeEvent.depthAfter? n es = some k) (hes : ScopeEvent.LocalAt p es) :
    InGroup p before k env' := by
  -- By induction on the course; its last event leads from one depth to the next.
  induction hcourse generalizing k with
  | refl =>
    obtain rfl : n = k := Option.some.inj hdepth
    exact h
  | rest hcourse hsame ih => exact (ih hdepth hes).sameScopes hsame
  | assign hcourse a global ih =>
    rw [ScopeEvent.depthAfter?_append, Option.bind_eq_some_iff] at hdepth
    obtain ⟨j, hj, hlast⟩ := hdepth
    obtain rfl : j = k := Option.some.inj hlast
    have hin := ih hj hes.of_append_left
    exact hin.assign a global (hes a.place global (by simp))
  | openGroup hcourse type locator start deliver ih =>
    rw [ScopeEvent.depthAfter?_append, Option.bind_eq_some_iff] at hdepth
    obtain ⟨j, hj, hlast⟩ := hdepth
    obtain rfl : j + 1 = k := Option.some.inj hlast
    have hin := ih hj hes.of_append_left
    exact hin.openGroup type locator start deliver
  | closeGroup hcourse hgroups ih =>
    rw [ScopeEvent.depthAfter?_append, Option.bind_eq_some_iff] at hdepth
    obtain ⟨j, hj, hlast⟩ := hdepth
    cases j with
    | zero => contradiction
    | succ j =>
      obtain rfl : j = k := Option.some.inj hlast
      have hin := ih hj hes.of_append_left
      exact hin.closeGroup hgroups

end InGroup

/-- If a place was assigned to only locally since the innermost group began, then the end of
    this group brings back the content of that time. -/
theorem Entered.lookup_unwound {before : Env μ} (h : before.Entered 0 es env)
    (hes : ScopeEvent.LocalAt p es) {g : Group μ} {gs : List (Group μ)}
    (hgroups : env.groups = g :: gs) :
    Env.lookup { env.restore g.undo with groups := gs } p = before.lookup p := by
  obtain ⟨type, locator, start, deliver, hcourse, hdepth⟩ := h
  have hin := (InGroup.start before p type locator start deliver).course hcourse hdepth hes
  apply lookup_eq_of_history_eq
  rw [history_unwound hgroups, ← List.drop_one]
  exact hin.history

/-! ## Global assignments -/

/-- Where no group remembers the place, closing groups does not change it. -/
theorem forall_mem_history (env : Env μ)
    (hundo : ∀ g ∈ env.groups, ∀ a ∈ g.undo, a.place ≠ p) :
    ∀ x ∈ env.history p, x = env.lookup p := by
  have hgeneral : ∀ (blank v : Valuation μ) (gs : List (Group μ)),
      (∀ g ∈ gs, ∀ a ∈ g.undo, a.place ≠ p) → ∀ x ∈ Valuation.history p blank v gs, x = v p := by
    intro blank v gs hgs
    induction gs generalizing v with
    | nil => exact fun x hx => List.mem_singleton.mp hx
    | cons g gs ih =>
      rw [List.forall_mem_cons] at hgs
      have hend : Valuation.writeAll blank v g.undo p = v p := by
        have hnone : g.undo.filter (·.place = p) = [] := by
          rw [List.filter_eq_nil_iff]
          simpa using hgs.1
        rw [← Valuation.writeAll_filter, hnone]
        rfl
      intro x hx
      rcases List.mem_cons.mp hx with rfl | hx
      · rfl
      · rw [ih _ hgs.2 x hx, hend]
  exact hgeneral env.blank env.lookup env.groups hundo

/-- A global assignment is seen now and behind all open groups. -/
theorem forall_mem_history_assign (env : Env μ) (a : Assignment μ) :
    ∀ x ∈ (env.assign a true).history a.place, x = (env.assign a true).lookup a.place := by
  apply forall_mem_history
  show ∀ g ∈ ((env.purge a.key).write a).groups, ∀ b ∈ g.undo, b.place ≠ a.place
  rw [groups_write]
  show ∀ g ∈ env.groups.map (·.purge a.key), ∀ b ∈ g.undo, b.place ≠ a.place
  rw [List.forall_mem_map]
  intro g _ b hb hplace
  obtain ⟨-, hkey⟩ := List.mem_filter.mp hb
  have heq : b.key = a.key := by
    rw [Assignment.key_eq_key_place, hplace, ← Assignment.key_eq_key_place]
  simp [heq] at hkey

/-- What is seen behind all open groups stays what it is as long as nothing assigns to the
    place. -/
theorem Course.forall_mem_history {x : p.Content μ} (h : env.Course es env')
    (hes : ScopeEvent.Avoids p es) (hx : ∀ y ∈ env.history p, y = x) :
    ∀ y ∈ env'.history p, y = x := by
  induction h with
  | refl => exact hx
  | rest h hsame ih =>
    rw [hsame.history]
    exact ih hes
  | assign h a global ih =>
    have hkey : a.key ≠ p.key := by
      rw [Assignment.key_eq_key_place]
      exact hes a.place global (by simp)
    rw [history_assign_of_ne _ a global hkey]
    exact ih hes.of_append_left
  | openGroup h type locator start deliver ih =>
    have hbefore := ih hes.of_append_left
    rw [history_openGroup, List.forall_mem_cons]
    exact ⟨hbefore _ (List.mem_of_mem_head? (head_history _ p)), hbefore⟩
  | closeGroup h hgroups ih =>
    have hbefore := ih hes.of_append_left
    rw [history_unwound hgroups]
    exact fun y hy => hbefore y (List.mem_of_mem_tail hy)

/-- A place with one content, now and behind all open groups, has this content behind the
    innermost one. -/
theorem lookup_unwound_of_forall_mem {x : p.Content μ} (h : ∀ y ∈ env.history p, y = x)
    {g : Group μ} {gs : List (Group μ)} (hgroups : env.groups = g :: gs) :
    Env.lookup { env.restore g.undo with groups := gs } p = x := by
  apply h
  apply List.mem_of_mem_tail
  rw [← history_unwound hgroups]
  exact List.mem_of_mem_head? (head_history _ p)

/-! ## A setting in a group -/

section Setting

variable {before : Env μ} {s : Setting μ} {g : Group μ} {gs : List (Group μ)}

/-- What was set locally is gone when the group ends. -/
theorem Entered.lookup_unwound_set (h : before.Entered 0 es env)
    (hes : ScopeEvent.LocalAt s.place es) {es' : List ScopeEvent}
    (hcourse : (env.assign s.assignment false).Course es' env')
    (hdepth : ScopeEvent.depthAfter? 0 es' = some 0) (hes' : ScopeEvent.LocalAt s.place es')
    (hgroups : env'.groups = g :: gs) :
    Env.lookup { env'.restore g.undo with groups := gs } s.place = before.lookup s.place := by
  have hset : ScopeEvent.LocalAt s.place [.assigned s.assignment.place false] := by
    intro q global hq _
    obtain ⟨rfl, rfl⟩ := ScopeEvent.assigned.inj (List.mem_singleton.mp hq)
    exact ⟨rfl, s.place_assignment⟩
  have hentered := (h.course (.of_assign env s.assignment false) rfl).course hcourse hdepth
  exact hentered.lookup_unwound ((hes.append hset).append hes') hgroups

/-- What was set globally is still there when the group ends. -/
theorem lookup_unwound_set_global (env : Env μ)
    (hcourse : (env.assign s.assignment true).Course es env')
    (hes : ScopeEvent.Avoids s.place es) (hgroups : env'.groups = g :: gs) :
    Env.lookup { env'.restore g.undo with groups := gs } s.place = s.value := by
  have hseen : ∀ y ∈ (env.assign s.assignment true).history s.place, y = s.value := by
    have hall := forall_mem_history_assign env s.assignment
    rw [lookup_assign_setting, s.place_assignment, Function.update_self] at hall
    exact hall
  exact lookup_unwound_of_forall_mem (hcourse.forall_mem_history hes hseen) hgroups

end Setting

end Env

end Course

end TexEngine
