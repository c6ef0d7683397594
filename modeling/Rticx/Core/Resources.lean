import Mathlib.Data.Finset.Lattice.Fold
import Mathlib.Order.Lattice.Nat
import Rticx.Core.Analysis

/-!
# The resources that tasks list

What the analysis makes of the lists of resources, and what `shared()` of a task gives access to.
The ceilings are computed from the lists of the tasks that are not idle, and an unknown name is an
error there; the code that is generated for a task leaves unknown names out.
-/

namespace Rticx.Core

open Lib.Except

/-! ## Success of the analysis -/

theorem raiseField_isSome (r : Ident) (p : Nat) (es : List SharedElement) :
    (raiseField r p es).isSome = (es.find? (·.ident = r)).isSome := by
  induction es with
  | nil => rfl
  | cons e es ih =>
    rw [raiseField, List.find?_cons]
    by_cases he : e.ident = r
    · simp [he]
    · simp [he, ih]

/-- The two structs have fields of the same names. -/
def SharedResources.SameFields (shared shared' : SharedResources) : Prop :=
  ∀ q, (shared'.getField q).isSome = (shared.getField q).isSome

theorem raiseFields_sameFields {shared shared' : SharedResources} {t : RticTask}
    (h : raiseFields shared t = .ok shared') : shared.SameFields shared' := by
  intro q
  rw [getField_raiseFields h, Option.isSome_map]

theorem raiseFields_ok_iff {shared : SharedResources} {t : RticTask} :
    (∃ shared', raiseFields shared t = .ok shared') ↔
      ∀ r ∈ t.args.shared, (shared.getField r).isSome := by
  refine foldlM_ok_iff (P := shared.SameFields) ?_ ?_ fun _ => rfl
  · intro s r hs
    have hsome := raiseField_isSome r t.args.priority s.resources
    rw [show (s.resources.find? (·.ident = r)).isSome = _ from hs r] at hsome
    cases hr : raiseField r t.args.priority s.resources <;> simp [← hsome, hr]
  · intro s r s' hs h
    split at h
    · rename_i es hes
      cases h
      intro q
      rw [← hs q]
      show (es.find? _).isSome = (s.resources.find? _).isSome
      rw [find_raiseField hes q, Option.isSome_map]
    · cases h

/-- **The ceilings of a core can be computed exactly when every listed name is a field.** -/
theorem updateResourcePriorities_ok_iff {shared : Option SharedResources}
    {tasks : List RticTask} :
    (∃ shared', updateResourcePriorities shared tasks = .ok shared') ↔
      ∀ s, shared = some s → ∀ t ∈ tasks, ∀ r ∈ t.args.shared, (s.getField r).isSome := by
  cases shared with
  | none => exact ⟨fun _ s hs => absurd hs (by simp), fun _ => ⟨none, rfl⟩⟩
  | some shared =>
    have hloop : (∃ s, tasks.foldlM raiseFields shared = .ok s) ↔
        ∀ t ∈ tasks, ∀ r ∈ t.args.shared, (shared.getField r).isSome := by
      refine foldlM_ok_iff (P := shared.SameFields) ?_ ?_ fun _ => rfl
      · intro s t hs
        rw [raiseFields_ok_iff]
        simp only [hs _]
      · intro s t s' hs h q
        rw [raiseFields_sameFields h q, hs q]
    constructor
    · rintro ⟨shared', h⟩ s ⟨⟩
      obtain ⟨s, hs, -⟩ := map_eq_ok.mp h
      exact hloop.mp ⟨s, hs⟩
    · intro h
      obtain ⟨s, hs⟩ := hloop.mpr (h shared rfl)
      exact ⟨some s, map_eq_ok.mpr ⟨s, hs, rfl⟩⟩

/-- The analysis of a sub-app changes its shared struct and nothing else. -/
def SubApp.Analyzed (sub sub' : SubApp) : Prop :=
  ∃ shared', updateResourcePriorities sub.shared sub.tasks = .ok shared' ∧
    sub' = { sub with shared := shared' }

theorem Analysis.run_subApps {app app' : App} {analysis : Analysis}
    (h : Analysis.run app = .ok (app', analysis)) :
    List.Forall₂ SubApp.Analyzed app.subApps app'.subApps := by
  unfold Analysis.run at h
  obtain ⟨subApps, hsubs, h⟩ := bind_eq_ok.mp h
  cases h
  refine (mapM_forall₂ hsubs).imp ?_
  intro sub sub' hsub
  obtain ⟨shared', hshared', hsub⟩ := bind_eq_ok.mp hsub
  cases hsub
  exact ⟨shared', hshared', rfl⟩

/-- **When the analysis fails.** -/
theorem Analysis.run_error_iff {app : App} :
    (∃ msg, Analysis.run app = .error msg) ↔
      ∃ sub ∈ app.subApps, ∃ shared, sub.shared = some shared ∧
        ∃ t ∈ sub.tasks, ∃ r ∈ t.args.shared, shared.getField r = none := by
  have hok : (∃ x, Analysis.run app = .ok x) ↔ ∀ sub ∈ app.subApps, ∀ shared,
      sub.shared = some shared → ∀ t ∈ sub.tasks, ∀ r ∈ t.args.shared,
        (shared.getField r).isSome := by
    simp only [← updateResourcePriorities_ok_iff]
    unfold Analysis.run
    constructor
    · rintro ⟨x, h⟩ sub hsub
      obtain ⟨subApps, hsubs, -⟩ := bind_eq_ok.mp h
      obtain ⟨sub', hsub'⟩ := mapM_ok_iff.mp ⟨_, hsubs⟩ sub hsub
      obtain ⟨shared', hshared', -⟩ := bind_eq_ok.mp hsub'
      exact ⟨shared', hshared'⟩
    · intro h
      obtain ⟨subApps, hsubs⟩ := mapM_ok_iff.mpr fun sub hsub =>
        (h sub hsub).imp' (fun shared' => { sub with shared := shared' })
          fun shared' hshared' => bind_eq_ok.mpr ⟨shared', hshared', rfl⟩
      exact ⟨_, bind_eq_ok.mpr ⟨subApps, hsubs, rfl⟩⟩
  rw [error_iff, hok]
  push Not
  simp only [Option.isSome_eq_false_iff, Bool.not_eq_true, Option.isNone_iff_eq_none]

/-! ## The ceilings -/

/-- The tasks that list the resource. -/
def sharers (tasks : List RticTask) (resource : Ident) : Finset RticTask :=
  tasks.toFinset.filter (resource ∈ ·.args.shared)

theorem mem_sharers {tasks : List RticTask} {resource : Ident} {t : RticTask} :
    t ∈ sharers tasks resource ↔ t ∈ tasks ∧ resource ∈ t.args.shared := by
  simp [sharers]

/-- The loop computes a maximum. -/
theorem ceiling_eq_sup (tasks : List RticTask) (resource : Ident) :
    ceiling tasks resource = (sharers tasks resource).sup (·.args.priority) := by
  induction tasks with
  | nil => rfl
  | cons t tasks ih =>
    unfold sharers at ih ⊢
    rw [ceiling, List.foldr_cons, ← ceiling, List.toFinset_cons, Finset.filter_insert, ih]
    split
    · rw [Finset.sup_insert]
    · rfl

/-- The priorities of the tasks, each with the resources that are listed at it. -/
def listed (tasks : List RticTask) : Set (Nat × Ident) :=
  {x | ∃ t ∈ tasks, t.args.priority = x.1 ∧ x.2 ∈ t.args.shared}

theorem sup_sharers_le {tasks tasks' : List RticTask} (h : listed tasks ⊆ listed tasks')
    (resource : Ident) :
    (sharers tasks resource).sup (·.args.priority) ≤
      (sharers tasks' resource).sup (·.args.priority) := by
  refine Finset.sup_le fun t ht => ?_
  obtain ⟨hmem, hlists⟩ := mem_sharers.mp ht
  obtain ⟨t', hmem', hpriority, hlists'⟩ :=
    h (show (t.args.priority, resource) ∈ listed tasks from ⟨t, hmem, rfl, hlists⟩)
  show t.args.priority ≤ _
  rw [← show t'.args.priority = t.args.priority from hpriority]
  exact Finset.le_sup (f := fun t => t.args.priority) (mem_sharers.mpr ⟨hmem', hlists'⟩)

/-- Neither the order nor a repetition matters. -/
theorem sup_sharers_congr {tasks tasks' : List RticTask} (h : listed tasks = listed tasks')
    (resource : Ident) :
    (sharers tasks resource).sup (·.args.priority) =
      (sharers tasks' resource).sup (·.args.priority) :=
  le_antisymm (sup_sharers_le h.le resource) (sup_sharers_le h.ge resource)

/--
**The analysis gives each field the highest priority of the tasks of its core that list it**, and
fails exactly if one of them lists what is no field.
-/
theorem run_ceilings {args : AppArgs} {items : List Item} {app : App}
    (hparse : App.parse args items = .ok app) :
    (∀ app' analysis, Analysis.run app = .ok (app', analysis) →
      List.Forall₂ (fun sub sub' => sub'.core = sub.core ∧ sub'.tasks = sub.tasks)
        app.subApps app'.subApps ∧
      ∀ sub ∈ app'.subApps, ∀ resource e, sub.getField resource = some e →
        e.priority = (sharers sub.tasks resource).sup (·.args.priority) ∧
        (∀ t ∈ sub.tasks, resource ∈ t.args.shared → t.args.priority ≤ e.priority) ∧
        ∀ tasks, listed tasks = listed sub.tasks →
          (sharers tasks resource).sup (·.args.priority) = e.priority) ∧
    ((∃ msg, Analysis.run app = .error msg) ↔
      ∃ sub ∈ app.subApps, ∃ shared, sub.shared = some shared ∧
        ∃ t ∈ sub.tasks, ∃ r ∈ t.args.shared, shared.getField r = none) := by
  refine ⟨fun app' analysis hrun => ⟨?_, ?_⟩, Analysis.run_error_iff⟩
  · refine (Analysis.run_subApps hrun).imp ?_
    rintro sub sub' ⟨shared', -, rfl⟩
    exact ⟨rfl, rfl⟩
  · intro sub hsub resource e hfield
    have hceiling : e.priority = (sharers sub.tasks resource).sup (·.args.priority) := by
      rw [Analysis.run_ceiling hparse hrun hsub hfield, ceiling_eq_sup]
    refine ⟨hceiling, ?_, ?_⟩
    · intro t ht hlists
      rw [hceiling]
      exact Finset.le_sup (f := fun t => t.args.priority) (mem_sharers.mpr ⟨ht, hlists⟩)
    · intro tasks htasks
      rw [hceiling, sup_sharers_congr htasks]

/-- A counter that tasks of priorities 2 and 5 share. -/
def counterItems : List Item := [
  .shared "Shared" none [some "counter"],
  .init "init" none,
  .task "UartTask" { binds := some "UART", priority := some 2, shared := some ["counter"] },
  .task "TimerTask" { binds := some "TIMER", priority := some 5, shared := some ["counter"] }]

def counterTask (name binds : Ident) (priority : Nat) : RticTask where
  args := {
    binds := some binds
    priority
    shared := ["counter"]
    core := 0
    taskTrait := hwtTraitTy
    initGenerated := false }
  name := name

/-- The only core of the app, with this ceiling. -/
def counterSub (ceiling : Nat) : SubApp where
  core := 0
  shared := some ⟨0, "Shared", [⟨"counter", ceiling⟩]⟩
  init := ⟨0, "init"⟩
  postInit := none
  idle := none
  tasks := [counterTask "UartTask" "UART" 2, counterTask "TimerTask" "TIMER" 5]

theorem run_ceilings_counter : ∃ analysis,
    App.parse ⟨["mypac"], 1⟩ counterItems = .ok ⟨⟨["mypac"], 1⟩, [counterSub 0]⟩ ∧
    Analysis.run ⟨⟨["mypac"], 1⟩, [counterSub 0]⟩ =
      .ok (⟨⟨["mypac"], 1⟩, [counterSub 5]⟩, analysis) ∧
    (sharers (counterSub 5).tasks "counter").sup (·.args.priority) = 5 := by
  have hparse : App.parse ⟨["mypac"], 1⟩ counterItems =
      .ok ⟨⟨["mypac"], 1⟩, [counterSub 0]⟩ := rfl
  refine ⟨_, hparse, rfl, ?_⟩
  have h := ((run_ceilings hparse).1 _ _ rfl).2 (counterSub 5) List.mem_cons_self "counter"
    ⟨"counter", 5⟩ rfl
  exact h.1.symm

/-! ## The resources that a task can access -/

/-- The fields of the struct that `shared()` returns, with the priority of their proxies:
`generate_shared_for_task`. Without a name in the list there is no struct. -/
def generateSharedForTask (shared : SharedResources) (task : RticTask) : List (Ident × Nat) :=
  task.args.shared.filterMap fun resourceIdent =>
    (shared.getField resourceIdent).map fun resource => (resource.ident, task.args.priority)

/-- The same for a task of the sub-app, which need not have a shared struct:
`generate_task_def`. -/
def SubApp.sharedFields (sub : SubApp) (task : RticTask) : List (Ident × Nat) :=
  (sub.shared.map (generateSharedForTask · task)).getD []

theorem SharedResources.ident_of_getField {shared : SharedResources} {r : Ident}
    {e : SharedElement} (h : shared.getField r = some e) : e.ident = r := by
  simpa using List.find?_some h

/-- A proxy for each listed field, and none for another name. -/
theorem generateSharedForTask_names (shared : SharedResources) (task : RticTask) :
    (generateSharedForTask shared task).map Prod.fst =
      task.args.shared.filter fun r => (shared.getField r).isSome := by
  unfold generateSharedForTask
  induction task.args.shared with
  | nil => rfl
  | cons r rs ih =>
    cases hr : shared.getField r with
    | none => simpa [hr] using ih
    | some e => simpa [hr, SharedResources.ident_of_getField hr] using ih

theorem SubApp.sharedFields_names (sub : SubApp) (task : RticTask) :
    (sub.sharedFields task).map Prod.fst =
      task.args.shared.filter fun r => (sub.getField r).isSome := by
  unfold sharedFields getField
  cases sub.shared with
  | none => simp
  | some shared => exact generateSharedForTask_names shared task

/-- The struct that `shared()` returns has one field for each name of the list. -/
def SubApp.OneProxyEach (sub : SubApp) (task : RticTask) : Prop :=
  ((sub.sharedFields task).map Prod.fst).Nodup ∧
    ∀ r, r ∈ (sub.sharedFields task).map Prod.fst ↔ r ∈ task.args.shared

theorem SubApp.oneProxyEach_iff {sub : SubApp} {task : RticTask} : sub.OneProxyEach task ↔
    (∀ r ∈ task.args.shared, (sub.getField r).isSome) ∧ task.args.shared.Nodup := by
  unfold SubApp.OneProxyEach
  rw [sub.sharedFields_names]
  simp only [List.mem_filter, and_iff_left_iff_imp]
  constructor
  · rintro ⟨hnodup, hall⟩
    rw [List.filter_eq_self.mpr hall] at hnodup
    exact ⟨hall, hnodup⟩
  · rintro ⟨hall, hnodup⟩
    exact ⟨hnodup.filter _, hall⟩

/-- Every name that a task or idle lists is a field, and has its proxy. -/
def SubApp.Resolved (sub : SubApp) : Prop :=
  ∀ task ∈ sub.tasks ++ sub.idle.toList,
    (∀ r ∈ task.args.shared, (sub.getField r).isSome) ∧ sub.OneProxyEach task

/-- No task and no idle task lists a name twice. -/
def SubApp.ListsOnce (sub : SubApp) : Prop :=
  ∀ task ∈ sub.tasks ++ sub.idle.toList, task.args.shared.Nodup

instance (sub : SubApp) : Decidable sub.ListsOnce :=
  inferInstanceAs (Decidable (∀ task ∈ sub.tasks ++ sub.idle.toList, task.args.shared.Nodup))

theorem SubApp.resolved_iff {sub : SubApp} :
    sub.Resolved ↔ (∀ t ∈ sub.tasks, ∀ r ∈ t.args.shared, (sub.getField r).isSome) ∧
      (∀ idle, sub.idle = some idle → ∀ r ∈ idle.args.shared, (sub.getField r).isSome) ∧
      sub.ListsOnce := by
  unfold SubApp.Resolved SubApp.ListsOnce
  simp only [SubApp.oneProxyEach_iff, ← and_assoc, and_self, forall_and, List.forall_mem_append,
    Option.mem_toList]

/-- The analysis keeps the names of the fields. -/
theorem SubApp.Analyzed.getField_isSome {sub sub' : SubApp} (h : sub.Analyzed sub') (r : Ident) :
    (sub'.getField r).isSome = (sub.getField r).isSome := by
  obtain ⟨shared', hupdate, rfl⟩ := h
  unfold SubApp.getField
  cases hshared : sub.shared with
  | none =>
    rw [hshared] at hupdate
    cases hupdate
    rfl
  | some shared =>
    rw [hshared] at hupdate
    obtain ⟨s, hs, rfl⟩ := map_eq_ok.mp hupdate
    show (s.getField r).isSome = (shared.getField r).isSome
    rw [getField_updateResourcePriorities (map_eq_ok.mpr ⟨s, hs, rfl⟩), Option.isSome_map]

/-- What the analysis checks: the tasks of a core that has a shared struct. -/
theorem SubApp.Analyzed.tasks_resolved {sub sub' : SubApp} (h : sub.Analyzed sub') :
    (∀ t ∈ sub.tasks, ∀ r ∈ t.args.shared, (sub.getField r).isSome) ↔
      (sub.shared = none → ∀ t ∈ sub.tasks, t.args.shared = []) := by
  obtain ⟨shared', hupdate, -⟩ := h
  unfold SubApp.getField
  cases hshared : sub.shared with
  | none => simp [List.eq_nil_iff_forall_not_mem]
  | some shared =>
    refine ⟨fun _ hnone => absurd hnone (by simp), fun _ => ?_⟩
    exact updateResourcePriorities_ok_iff.mp ⟨shared', hupdate⟩ shared hshared

theorem SubApp.Analyzed.resolved_iff {sub sub' : SubApp} (h : sub.Analyzed sub') :
    sub'.Resolved ↔ (sub.shared = none → ∀ t ∈ sub.tasks, t.args.shared = []) ∧
      (∀ idle, sub.idle = some idle → ∀ r ∈ idle.args.shared, (sub.getField r).isSome) ∧
      sub.ListsOnce := by
  rw [SubApp.resolved_iff, ← h.tasks_resolved]
  simp only [h.getField_isSome]
  obtain ⟨shared', -, rfl⟩ := h
  rfl

/--
**The resources of an accepted app are all resolved exactly when those of idle are, no task lists
one on a core without a shared struct, and no list has a name twice.** Nothing is said about the
names that other tasks list: the analysis has checked them.
-/
theorem resources_resolved_iff {app app' : App} {analysis : Analysis}
    (hrun : Analysis.run app = .ok (app', analysis)) :
    (∀ sub ∈ app'.subApps, sub.Resolved) ↔
      ∀ sub ∈ app.subApps,
        (sub.shared = none → ∀ t ∈ sub.tasks, t.args.shared = []) ∧
        (∀ idle, sub.idle = some idle → ∀ r ∈ idle.args.shared, (sub.getField r).isSome) ∧
        sub.ListsOnce := by
  have hsubs := Analysis.run_subApps hrun
  clear hrun
  generalize app.subApps = subs, app'.subApps = subs' at hsubs ⊢
  induction hsubs with
  | nil => simp
  | cons h _ ih => simp only [List.forall_mem_cons, h.resolved_iff, ih]

/-- A resource that idle shares with a task. -/
def idleCounterItems (idleShares : Ident) : List Item := [
  .shared "Shared" none [some "counter"],
  .init "init" none,
  .idle "Idle" { shared := some [idleShares] },
  .task "UartTask" { binds := some "UART", priority := some 2, shared := some ["counter"] }]

def idleCounterSub (idleShares : Ident) (ceiling : Nat) : SubApp where
  core := 0
  shared := some ⟨0, "Shared", [⟨"counter", ceiling⟩]⟩
  init := ⟨0, "init"⟩
  postInit := none
  idle := some {
    args := {
      binds := none
      priority := defaultTaskPriority
      shared := [idleShares]
      core := 0
      taskTrait := idleTraitTy
      initGenerated := false }
    name := "Idle" }
  tasks := [counterTask "UartTask" "UART" 2]

theorem resources_resolved_iff_counter :
    (idleCounterSub "counter" 2).Resolved := by
  have hrun : ∃ analysis, Analysis.run ⟨⟨["mypac"], 1⟩, [idleCounterSub "counter" 0]⟩ =
      .ok (⟨⟨["mypac"], 1⟩, [idleCounterSub "counter" 2]⟩, analysis) := ⟨_, rfl⟩
  obtain ⟨analysis, hrun⟩ := hrun
  refine (resources_resolved_iff hrun).mpr ?_ _ List.mem_cons_self
  decide

/-- The name that idle lists is no field, and a task lists one where there is no shared struct: both
apps are accepted, and the names are left out. -/
theorem unknown_resources_accepted :
    (∃ analysis, App.parse ⟨["mypac"], 1⟩ (idleCounterItems "missing") =
        .ok ⟨⟨["mypac"], 1⟩, [idleCounterSub "missing" 0]⟩ ∧
      Analysis.run ⟨⟨["mypac"], 1⟩, [idleCounterSub "missing" 0]⟩ =
        .ok (⟨⟨["mypac"], 1⟩, [idleCounterSub "missing" 2]⟩, analysis) ∧
      ¬ (idleCounterSub "missing" 2).Resolved) ∧
    ∃ app app' analysis, App.parse ⟨["mypac"], 1⟩ counterItems.tail = .ok app ∧
      Analysis.run app = .ok (app', analysis) ∧ ¬ ∀ sub ∈ app'.subApps, sub.Resolved := by
  refine ⟨⟨_, rfl, rfl, ?_⟩, ⟨_, _, _, rfl, rfl, ?_⟩⟩
  · rw [SubApp.resolved_iff]
    decide
  · simp only [SubApp.resolved_iff]
    decide

end Rticx.Core
