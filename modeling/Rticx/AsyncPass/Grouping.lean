import Mathlib.Data.Finset.Sort
import Rticx.AsyncPass.Codegen

/-!
# Priority groups and dispatchers

`SubAnalysis::analyse_subapp` of both passes: when it succeeds, and what it makes of the tasks of a
core. The async pass leaves the tasks of priority 0 to the idle executor; otherwise the passes do
the same.
-/

namespace Rticx.SwPass

open Rticx.Core Rticx.Core.Source Rticx.Lib Rticx.Lib.Except

/-- `App::parse` of a pass. -/
def TaskPass.parse (pass : TaskPass) (appParams : AppParameters) (items : List ModuleItem) :
    Except String App :=
  match pass with
  | .software => App.parse appParams items
  | .async => AsyncPass.App.parse appParams items

/-- `SubAnalysis::analyse_subapp` of a pass. -/
def TaskPass.analyseSubapp (pass : TaskPass) (sub : SubApp) : Except String SubAnalysis :=
  match pass with
  | .software => SubAnalysis.analyseSubapp sub
  | .async => AsyncPass.SubAnalysis.analyseSubapp sub

/-- The tasks of the priority are in a group, and get a dispatcher. -/
def TaskPass.dispatches (pass : TaskPass) (priority : Nat) : Bool :=
  match pass with
  | .software => true
  | .async => priority ≠ 0

/-! ## What is to be -/

/-- The priorities that need a dispatcher. -/
def SubApp.priorities (pass : TaskPass) (sub : SubApp) : Finset Nat :=
  ((sub.tasks.map (·.params.priority)).filter pass.dispatches).toFinset

/-- The group of a priority, in the order of the declarations. -/
def SubApp.group (pass : TaskPass) (sub : SubApp) (priority : Nat) : List SoftwareTask :=
  sub.tasks.filter fun task => pass.dispatches priority && task.params.priority = priority

/-- When the tasks of a core can be given dispatchers. -/
structure Dispatchable (pass : TaskPass) (sub : SubApp) : Prop where
  cross : ∀ task ∈ sub.mcSwTasks, pass.dispatches task.params.priority = true
  disjoint : ∀ task ∈ sub.swTasks, ∀ task' ∈ sub.mcSwTasks,
    task.params.priority ≠ task'.params.priority
  uniform : ∀ task ∈ sub.mcSwTasks, ∀ task' ∈ sub.mcSwTasks,
    task.params.priority = task'.params.priority → task.params.spawnBy = task'.params.spawnBy
  enough : (sub.priorities pass).card ≤ sub.dispatchers.length

/-- What the analysis of a core is. -/
structure Grouping (pass : TaskPass) (sub : SubApp) (a : SubAnalysis) : Prop where
  core : a.core = sub.core
  keys : a.tasksPriorityMap.keys = (sub.priorities pass).sort
  group : ∀ priority, a.tasksPriorityMap.get? priority =
    if sub.group pass priority = [] then none
    else some ((sub.group pass priority).map (SoftwareTask.entry (·.params.spawnBy)))
  prio0 : a.prio0Tasks = (sub.tasks.filter fun task => !pass.dispatches task.params.priority).map
    (SoftwareTask.entry (·.params.spawnBy))
  dispatcherKeys : a.dispatcherPriorityMap.keys = a.tasksPriorityMap.keys
  dispatcher : ∀ k priority : Nat, a.tasksPriorityMap.keys[k]? = some priority →
    ∃ dispatcher, sub.dispatchers[k]? = some dispatcher ∧
      a.dispatcherPriorityMap.get? priority = some dispatcher

/-! ## The two passes are one -/

variable {pass : TaskPass} {sub : SubApp} {a : SubAnalysis}

/-- The core-local tasks that get a dispatcher. -/
def SubApp.localTasks (pass : TaskPass) (sub : SubApp) : List SoftwareTask :=
  sub.swTasks.filter fun task => pass.dispatches task.params.priority

/-- The pass, with the first check of the async pass in front. -/
theorem TaskPass.analyseSubapp_iff :
    pass.analyseSubapp sub = .ok a ↔
      (∀ task ∈ sub.mcSwTasks, pass.dispatches task.params.priority = true) ∧
      analyseGroups sub (groupByPriority (sub.localTasks pass) fun _ => sub.core)
        (groupByPriority sub.mcSwTasks fun task => task.params.spawnBy)
        ((sub.swTasks.filter fun task => !pass.dispatches task.params.priority).map
          (SoftwareTask.entry fun _ => sub.core)) = .ok a := by
  cases pass with
  | software =>
    have hall : sub.localTasks .software = sub.swTasks := List.filter_eq_self.mpr fun _ _ => rfl
    have hnone : (sub.swTasks.filter fun task => !TaskPass.dispatches .software task.params.priority) =
        [] := List.filter_eq_nil_iff.mpr fun _ _ => by simp [TaskPass.dispatches]
    rw [hall, hnone]
    exact ⟨fun h => ⟨fun _ _ => rfl, h⟩, fun h => h.2⟩
  | async =>
    have hprio0 : ∀ task : SoftwareTask, (!TaskPass.dispatches .async task.params.priority) =
        decide (task.params.priority = 0) := by
      intro task
      simp [TaskPass.dispatches]
    simp only [hprio0]
    show AsyncPass.SubAnalysis.analyseSubapp sub = .ok a ↔ _
    unfold AsyncPass.SubAnalysis.analyseSubapp
    split
    · rename_i task hfind
      refine ⟨by rintro ⟨⟩, fun h => ?_⟩
      have hne := h.1 task (List.mem_of_find?_eq_some hfind)
      have heq := List.find?_some hfind
      simp [TaskPass.dispatches, of_decide_eq_true heq] at hne
    · rename_i hfind
      refine ⟨fun h => ⟨fun task htask => ?_, h⟩, fun h => h.2⟩
      have hne := List.find?_eq_none.mp hfind task htask
      simpa [TaskPass.dispatches] using hne

/-- The keys of the merged groups are the priorities that need a dispatcher. -/
theorem mem_keys_merged {priority : Nat}
    (hcross : ∀ task ∈ sub.mcSwTasks, pass.dispatches task.params.priority = true) :
    priority ∈ ((groupByPriority (sub.localTasks pass) fun _ => sub.core).extend
        (groupByPriority sub.mcSwTasks fun task => task.params.spawnBy)).keys ↔
      priority ∈ sub.priorities pass := by
  simp only [SortedMap.mem_keys_extend, mem_keys_groupByPriority, SubApp.priorities, SubApp.tasks,
    SubApp.localTasks, List.mem_toFinset, List.mem_filter, List.mem_map, List.mem_append]
  constructor
  · rintro (⟨task, htask, rfl⟩ | ⟨task, ⟨htask, hd⟩, rfl⟩)
    · exact ⟨⟨task, Or.inr htask, rfl⟩, hcross task htask⟩
    · exact ⟨⟨task, Or.inl htask, rfl⟩, hd⟩
  · rintro ⟨⟨task, htask | htask, rfl⟩, hd⟩
    · exact Or.inr ⟨task, ⟨htask, hd⟩, rfl⟩
    · exact Or.inl ⟨task, htask, rfl⟩

theorem keys_merged (hcross : ∀ task ∈ sub.mcSwTasks, pass.dispatches task.params.priority = true) :
    ((groupByPriority (sub.localTasks pass) fun _ => sub.core).extend
        (groupByPriority sub.mcSwTasks fun task => task.params.spawnBy)).keys =
      (sub.priorities pass).sort :=
  SortedMap.keys_eq (Finset.sortedLT_sort _).pairwise fun k => by
    rw [mem_keys_merged hcross, Finset.mem_sort]

/-- **When the analysis succeeds.** -/
theorem analyseSubapp_ok_iff : (∃ a, pass.analyseSubapp sub = .ok a) ↔ Dispatchable pass sub := by
  simp only [TaskPass.analyseSubapp_iff, analyseGroups_iff]
  constructor
  · rintro ⟨a, hcross, hdisjoint, huniform, -, -, hmap, hlen, -⟩
    refine ⟨hcross, fun task htask task' htask' heq => ?_, huniform, ?_⟩
    · -- a core-local task without a dispatcher has the priority of no cross-core task
      cases hd : pass.dispatches task.params.priority with
      | true => exact hdisjoint task (List.mem_filter.mpr ⟨htask, hd⟩) task' htask' heq
      | false =>
        have := hcross task' htask'
        rw [← heq, hd] at this
        cases this
    · rw [hmap, keys_merged hcross, Finset.length_sort] at hlen
      exact hlen
  · intro h
    have hlen : ((groupByPriority (sub.localTasks pass) fun _ => sub.core).extend
        (groupByPriority sub.mcSwTasks fun task => task.params.spawnBy)).keys.length ≤
          sub.dispatchers.length := by
      rw [keys_merged h.cross, Finset.length_sort]
      exact h.enough
    have hsorted : ((((groupByPriority (sub.localTasks pass) fun _ => sub.core).extend
        (groupByPriority sub.mcSwTasks fun task => task.params.spawnBy)).keys.zip
          sub.dispatchers).map Prod.fst).Pairwise (· < ·) := by
      rw [List.map_fst_zip hlen]
      exact SortedMap.sorted _
    refine ⟨⟨sub.core, _, ⟨_, hsorted⟩, _⟩, h.cross, fun task htask => ?_, h.uniform, rfl, rfl, rfl,
      hlen, rfl⟩
    exact h.disjoint task (List.mem_filter.mp htask).1

/-! ## What it finds -/

/-- A sub-app of a parsed app has the core-local tasks of its core. -/
theorem TaskPass.parse_local {appParams : AppParameters} {items : List ModuleItem} {app : App}
    (hparse : pass.parse appParams items = .ok app) (hsub : sub ∈ app.subApps) :
    ∀ task ∈ sub.swTasks, task.params.spawnBy = sub.core := by
  have htasks : App.parseTasks pass appParams items = .ok app := by
    cases pass with
    | software => exact hparse
    | async => exact AsyncPass.parseTasks_of_parse hparse
  exact fun task htask => ((cross_of_mem htasks hsub).1 task htask).2

/-- A core-local task is spawned on its core. -/
theorem SoftwareTask.entry_local {task : SoftwareTask} {core : Nat}
    (h : task.params.spawnBy = core) :
    task.entry (fun _ => core) = task.entry (·.params.spawnBy) := by
  subst h
  rfl

/-- The tasks of a priority are core-local or cross-core. -/
theorem SubApp.group_eq (priority : Nat)
    (hcross : ∀ task ∈ sub.mcSwTasks, pass.dispatches task.params.priority = true) :
    sub.group pass priority =
      (sub.localTasks pass).filter (fun task => task.params.priority = priority) ++
        sub.mcSwTasks.filter fun task => task.params.priority = priority := by
  unfold SubApp.group SubApp.tasks SubApp.localTasks
  rw [List.filter_append, List.filter_filter]
  refine congrArg₂ (· ++ ·) (List.filter_congr fun task _ => ?_) (List.filter_congr fun task htask => ?_)
  · by_cases hp : task.params.priority = priority
    · subst hp
      simp
    · simp [hp]
  · by_cases hp : task.params.priority = priority
    · subst hp
      simp [hcross task htask]
    · simp [hp]

theorem get?_merged (priority : Nat) (hlocal : ∀ task ∈ sub.swTasks, task.params.spawnBy = sub.core)
    (h : Dispatchable pass sub) :
    ((groupByPriority (sub.localTasks pass) fun _ => sub.core).extend
        (groupByPriority sub.mcSwTasks fun task => task.params.spawnBy)).get? priority =
      if sub.group pass priority = [] then none
      else some ((sub.group pass priority).map (SoftwareTask.entry (·.params.spawnBy))) := by
  have hentry : ((sub.localTasks pass).filter (fun task => task.params.priority = priority)).map
        (SoftwareTask.entry fun _ => sub.core) =
      ((sub.localTasks pass).filter (fun task => task.params.priority = priority)).map
        (SoftwareTask.entry (·.params.spawnBy)) := by
    refine List.map_congr_left fun task htask => ?_
    have htask := (List.mem_filter.mp (List.mem_filter.mp htask).1).1
    exact SoftwareTask.entry_local (hlocal task htask)
  rw [SortedMap.get?_extend, get?_groupByPriority, get?_groupByPriority, hentry,
    SubApp.group_eq priority h.cross]
  generalize hl : (sub.localTasks pass).filter (fun task => task.params.priority = priority) = l
  generalize hm : sub.mcSwTasks.filter (fun task => task.params.priority = priority) = m
  cases m with
  | nil =>
    rw [List.append_nil]
    exact Option.none_or
  | cons task' m =>
    -- then no core-local task has the priority
    have hmem : task' ∈ sub.mcSwTasks.filter fun task => task.params.priority = priority :=
      hm ▸ List.mem_cons_self
    obtain ⟨htask', hp'⟩ := List.mem_filter.mp hmem
    obtain rfl : l = [] := by
      rw [← hl, List.filter_eq_nil_iff]
      intro task htask hp
      exact h.disjoint task (List.mem_filter.mp htask).1 task' htask'
        ((of_decide_eq_true hp).trans (of_decide_eq_true hp').symm)
    simp

/-- **What the analysis finds.** -/
theorem grouping_of_analyseSubapp
    (hlocal : ∀ task ∈ sub.swTasks, task.params.spawnBy = sub.core)
    (h : pass.analyseSubapp sub = .ok a) : Grouping pass sub a := by
  have hd := analyseSubapp_ok_iff.mp ⟨a, h⟩
  obtain ⟨-, hgroups⟩ := TaskPass.analyseSubapp_iff.mp h
  obtain ⟨-, -, hcore, hprio0, hmap, hlen, hassigned⟩ := analyseGroups_iff.mp hgroups
  refine ⟨hcore, hmap ▸ keys_merged hd.cross, fun priority => hmap ▸ get?_merged priority hlocal hd,
    ?_, ?_, ?_⟩
  · have hnone : (sub.mcSwTasks.filter fun task => !pass.dispatches task.params.priority) = [] := by
      rw [List.filter_eq_nil_iff]
      intro task htask
      simp [hd.cross task htask]
    rw [hprio0, SubApp.tasks, List.filter_append, hnone, List.append_nil]
    refine List.map_congr_left fun task htask => ?_
    exact SoftwareTask.entry_local (hlocal task (List.mem_filter.mp htask).1)
  · show a.dispatcherPriorityMap.entries.map Prod.fst = _
    rw [hassigned, List.map_fst_zip hlen]
  · intro k priority hk
    obtain ⟨hlt, hkey⟩ := List.getElem?_eq_some_iff.mp hk
    have hlt' : k < sub.dispatchers.length := Nat.lt_of_lt_of_le hlt hlen
    refine ⟨sub.dispatchers[k], List.getElem?_eq_getElem hlt', SortedMap.get?_eq_some.mpr ?_⟩
    rw [hassigned, ← hkey]
    exact List.mem_iff_getElem.mpr ⟨k, by simpa using ⟨hlt, hlt'⟩, List.getElem_zip⟩

/-- Without tasks of priority 0 the passes do the same. -/
theorem analyseSubapp_agree (h : ∀ task ∈ sub.tasks, task.params.priority ≠ 0) :
    TaskPass.analyseSubapp .async sub = TaskPass.analyseSubapp .software sub := by
  have hfind : (sub.mcSwTasks.find? fun task => task.params.priority = 0) = none := by
    rw [List.find?_eq_none]
    intro task htask
    simpa using h task (List.mem_append_right _ htask)
  have hall : (sub.swTasks.filter fun task => task.params.priority ≠ 0) = sub.swTasks := by
    rw [List.filter_eq_self]
    intro task htask
    simpa using h task (List.mem_append_left _ htask)
  have hnone : (sub.swTasks.filter fun task => task.params.priority = 0) = [] := by
    rw [List.filter_eq_nil_iff]
    intro task htask
    simpa using h task (List.mem_append_left _ htask)
  show AsyncPass.SubAnalysis.analyseSubapp sub = SubAnalysis.analyseSubapp sub
  unfold AsyncPass.SubAnalysis.analyseSubapp SubAnalysis.analyseSubapp
  rw [hfind, hall, hnone]
  rfl

/--
**Groups and dispatchers.** The analysis of a core succeeds if the tasks can be given dispatchers, and
then every task is in the group of its priority and the groups get the dispatchers in their order.
The passes differ in what they do with tasks of priority 0 only.
-/
theorem priorities_grouped {appParams : AppParameters} {items : List ModuleItem} {app : App}
    (hparse : pass.parse appParams items = .ok app) (hsub : sub ∈ app.subApps) :
    ((∃ a, pass.analyseSubapp sub = .ok a) ↔ Dispatchable pass sub) ∧
    (∀ a, pass.analyseSubapp sub = .ok a → Grouping pass sub a) ∧
    ((∀ task ∈ sub.tasks, task.params.priority ≠ 0) →
      TaskPass.analyseSubapp .async sub = TaskPass.analyseSubapp .software sub) :=
  ⟨analyseSubapp_ok_iff, fun _ => grouping_of_analyseSubapp (TaskPass.parse_local hparse hsub),
    analyseSubapp_agree⟩

def twoDispatchers : AppParameters := ⟨AList.singleton 0 [["Low"], ["High"]], 1⟩

/-- The priorities are not declared in their order, and one task is for the idle executor. -/
def threePriorities : List ModuleItem :=
  [AsyncPass.asyncTask "Urgent" [("priority", some (.int 7))], AsyncPass.asyncTask "Background" [],
    AsyncPass.asyncTask "Slow" [("priority", some (.int 2)), ("capacity", some (.int 4))]]

theorem priorities_grouped_three : ∃ app sub a,
    TaskPass.parse .async twoDispatchers threePriorities = .ok app ∧ sub ∈ app.subApps ∧
      TaskPass.analyseSubapp .async sub = .ok a ∧
      a.tasksPriorityMap.entries.map (fun e => (e.1, e.2.map GroupTask.name)) =
        [(2, ["Slow"]), (7, ["Urgent"])] ∧
      a.dispatcherPriorityMap.entries = [(2, ["Low"]), (7, ["High"])] ∧
      a.prio0Tasks.map GroupTask.name = ["Background"] ∧
      Dispatchable .async sub ∧ Grouping .async sub a := by
  refine ⟨_, _, _, rfl, List.mem_singleton_self _, rfl, by decide +kernel, by decide +kernel,
    by decide +kernel, ?_⟩
  have h := @priorities_grouped .async _ twoDispatchers threePriorities _ rfl
    (List.mem_singleton_self _)
  exact ⟨h.1.mp ⟨_, rfl⟩, h.2.1 _ rfl⟩

end Rticx.SwPass
