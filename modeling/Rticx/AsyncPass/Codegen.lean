import Rticx.AsyncPass.App
import Rticx.SwPass.Codegen

/-!
# The code of the async tasks

`rticx-async-pass/src/codegen/mod.rs`, as far as it differs from the code of software tasks in who
works on which queue: tasks of priority 0 are taken by the idle task of their core.
-/

namespace Rticx.AsyncPass

open Rticx.Core (Ident)
open Rticx.Core.Source (ModuleItem)
open Rticx.Lib Rticx.Lib.Except Rticx.SwPass

/-- `AsyncTask::generate_spawn_api_prio_0` -/
def generateSpawnApiPrio0 (task : SoftwareTask) (hasCoreId : Bool) : SpawnFn where
  task := task.name
  inputsQueue := swTaskInputsIdent task.name
  readyQueue := priorityQueueIdent (priorityTyIdent 0 task.params.core)
  cross := false
  coreCheck := if hasCoreId then some task.params.core else none

/-- The `spawn_impl` of a task. -/
def spawnImpl (task : SoftwareTask) (hasCoreId : Bool) : SpawnFn :=
  if task.params.priority = 0 then generateSpawnApiPrio0 task hasCoreId
  else task.generateSpawnApi hasCoreId

/-- `generate_idle_executor` -/
def generateIdleExecutor (prio0Tasks : List GroupTask) (core : Nat) : List Consumer :=
  if prio0Tasks.isEmpty then [] else [.ofGroup .idle core 0 prio0Tasks]

/-- What takes tasks out of the queues of a core. -/
def generateConsumers (subAnalysis : SubAnalysis) : List Consumer :=
  generateDispatcherTasks .async subAnalysis ++
    generateIdleExecutor subAnalysis.prio0Tasks subAnalysis.core

/-- `generate_subapps` -/
def generateSubapps (hasCoreId : Bool) (app : App) (analysis : List SubAnalysis) : Code where
  spawns := app.subApps.flatMap fun sub => sub.tasks.map (spawnImpl · hasCoreId)
  consumers := analysis.flatMap generateConsumers

/-! ## One consumer for each group -/

/-- A core-local task of priority 0 is spawned like any other. -/
theorem spawnImpl_eq {task : SoftwareTask} {hasCoreId : Bool}
    (h : task.params.priority = 0 → task.cross = false) :
    spawnImpl task hasCoreId = task.generateSpawnApi hasCoreId := by
  unfold spawnImpl
  split
  · rename_i hpriority
    simp [generateSpawnApiPrio0, SoftwareTask.generateSpawnApi, h hpriority, hpriority]
  · rfl

/-- **The idle executor serves the group that the dispatchers leave out.** -/
theorem grouped_append_idle {sub : SubApp} {dispatchers : List Consumer} {tasks : List GroupTask}
    (hlocal : ∀ task ∈ sub.swTasks, task.params.spawnBy = sub.core)
    (hmc : ∀ task ∈ sub.mcSwTasks, task.params.priority ≠ 0)
    (hgroups : SubApp.Grouped
      { sub with swTasks := sub.swTasks.filter fun task => task.params.priority ≠ 0 } dispatchers)
    (hprio0 : ∀ k ∈ dispatchers, k.priority ≠ 0) (hne : tasks ≠ [])
    (htasks : tasks = (sub.swTasks.filter fun task => task.params.priority = 0).map
      (SoftwareTask.entry fun _ => sub.core)) :
    sub.Grouped (dispatchers ++ [.ofGroup .idle sub.core 0 tasks]) := by
  -- the priority of a task tells who serves it
  have hsplit : ∀ task ∈ sub.tasks, task.params.priority = 0 ∧ task ∈ sub.swTasks ∨
      task.params.priority ≠ 0 ∧
        task ∈ (sub.swTasks.filter fun task => task.params.priority ≠ 0) ++ sub.mcSwTasks := by
    intro task htask
    by_cases hpriority : task.params.priority = 0
    · rcases List.mem_append.mp htask with htask | htask
      · exact Or.inl ⟨hpriority, htask⟩
      · exact absurd hpriority (hmc task htask)
    · refine Or.inr ⟨hpriority, ?_⟩
      rcases List.mem_append.mp htask with htask | htask
      · refine List.mem_append_left _ (List.mem_filter.mpr ⟨htask, ?_⟩)
        simpa using hpriority
      · exact List.mem_append_right _ htask
  constructor
  · intro k hk
    rcases List.mem_append.mp hk with hk | hk
    · exact hgroups.core k hk
    · rw [List.mem_singleton.mp hk]
      rfl
  · intro k hk
    rcases List.mem_append.mp hk with hk | hk
    · exact hgroups.readyQueue k hk
    · rw [List.mem_singleton.mp hk]
      rfl
  · rw [List.map_append]
    refine hgroups.priorities.append (List.nodup_singleton _) ?_
    intro priority hdispatcher hidle
    obtain ⟨k, hk, rfl⟩ := List.mem_map.mp hdispatcher
    exact hprio0 k hk (List.mem_singleton.mp hidle)
  · intro task htask
    rcases hsplit task htask with ⟨hpriority, _⟩ | ⟨_, htask⟩
    · exact ⟨_, List.mem_append_right _ (List.mem_singleton.mpr rfl), hpriority.symm⟩
    · obtain ⟨k, hk, hpriority⟩ := hgroups.consumer task htask
      exact ⟨k, List.mem_append_left _ hk, hpriority⟩
  · intro k hk
    rcases List.mem_append.mp hk with hk | hk
    · exact hgroups.arms_ne_nil k hk
    · rw [List.mem_singleton.mp hk]
      exact fun hnil => hne (List.map_eq_nil_iff.mp hnil)
  · intro k hk arm harm
    rcases List.mem_append.mp hk with hk | hk
    · obtain ⟨task, htask, hspec⟩ := hgroups.arms k hk arm harm
      refine ⟨task, ?_, hspec⟩
      rcases List.mem_append.mp htask with htask | htask
      · exact List.mem_append_left _ (List.mem_filter.mp htask).1
      · exact List.mem_append_right _ htask
    · cases List.mem_singleton.mp hk
      obtain ⟨entry, hentry, rfl⟩ := List.mem_map.mp harm
      rw [htasks] at hentry
      obtain ⟨task, htask, rfl⟩ := List.mem_map.mp hentry
      obtain ⟨htask, hpriority⟩ := List.mem_filter.mp htask
      have hpriority : task.params.priority = 0 := by simpa using hpriority
      exact ⟨task, List.mem_append_left _ htask, hpriority, rfl⟩
  · intro task htask task' htask' hpriority
    rcases hsplit task htask with ⟨h0, htask⟩ | ⟨h0, htask⟩
    · rcases hsplit task' htask' with ⟨_, htask'⟩ | ⟨h0', _⟩
      · rw [hlocal task htask, hlocal task' htask']
      · exact absurd (hpriority.symm.trans h0) h0'
    · rcases hsplit task' htask' with ⟨h0', _⟩ | ⟨_, htask'⟩
      · exact absurd (hpriority.trans h0') h0
      · exact hgroups.spawnBy task htask task' htask' hpriority

/-- **The dispatchers and the idle executor of a core.** -/
theorem grouped_of_analyseSubapp {sub : SubApp} {a : SubAnalysis}
    (hlocal : ∀ task ∈ sub.swTasks, task.params.spawnBy = sub.core)
    (h : SubAnalysis.analyseSubapp sub = .ok a) :
    sub.Grouped (generateConsumers a) ∧ ∀ task ∈ sub.mcSwTasks, task.params.priority ≠ 0 := by
  unfold SubAnalysis.analyseSubapp at h
  split at h
  · cases h
  rename_i hfind
  have hmc : ∀ task ∈ sub.mcSwTasks, task.params.priority ≠ 0 := by
    intro task htask
    simpa using List.find?_eq_none.mp hfind task htask
  refine ⟨?_, hmc⟩
  have hlocal' : ∀ task ∈ sub.swTasks.filter fun task => task.params.priority ≠ 0,
      task.params.spawnBy = sub.core :=
    fun task htask => hlocal task (List.mem_filter.mp htask).1
  have hgroups : SubApp.Grouped _ (generateDispatcherTasks .async a) :=
    grouped_of_analyseGroups hlocal' h
  obtain ⟨hcore, hprio0, hmap, _⟩ := analyseGroups_ok hlocal' h
  unfold generateConsumers generateIdleExecutor
  split
  · -- then no task has priority 0
    rename_i hempty
    rw [List.isEmpty_iff, hprio0, List.map_eq_nil_iff] at hempty
    have hall : (sub.swTasks.filter fun task => task.params.priority ≠ 0) = sub.swTasks := by
      rw [List.filter_eq_self]
      intro task htask
      have hne := List.filter_eq_nil_iff.mp hempty task htask
      simpa using hne
    rw [hall] at hgroups
    rw [List.append_nil]
    exact hgroups
  · rename_i hempty
    rw [hcore]
    refine grouped_append_idle hlocal hmc hgroups ?_ (fun hnil => hempty (by simp [hnil])) hprio0
    intro k hk
    obtain ⟨group, hgroup, rfl⟩ := mem_generateDispatcherTasks.mp hk
    have hkey : group.1 ∈ a.tasksPriorityMap.keys := List.mem_map_of_mem hgroup
    rw [hmap, SortedMap.mem_keys_extend] at hkey
    rcases hkey with hkey | hkey
    · obtain ⟨task, htask, hpriority⟩ := mem_keys_groupByPriority.mp hkey
      exact fun h0 => hmc task htask (hpriority.trans h0)
    · obtain ⟨task, htask, hpriority⟩ := mem_keys_groupByPriority.mp hkey
      have hne : task.params.priority ≠ 0 := by simpa using (List.mem_filter.mp htask).2
      exact fun h0 => hne (hpriority.trans h0)

/-- What `App::parse` has accepted. -/
theorem parseTasks_of_parse {appParams : AppParameters} {items : List ModuleItem} {app : App}
    (h : App.parse appParams items = .ok app) : App.parseTasks .async appParams items = .ok app := by
  obtain ⟨app', happ, h⟩ := bind_eq_ok.mp h
  split at h
  · cases h
  · cases h
    exact happ

/-- What `run_pass` has accepted. -/
theorem runPass_ok {hasCoreId : Bool} {appParams : AppParameters} {items : List ModuleItem}
    {app : App} {analysis : List SubAnalysis}
    (h : runPass hasCoreId appParams items = .ok (app, analysis)) :
    App.parseTasks .async appParams items = .ok app ∧
      app.subApps.mapM SubAnalysis.analyseSubapp = .ok analysis := by
  obtain ⟨parsed, hparse, h⟩ := bind_eq_ok.mp h
  obtain ⟨_, _, h⟩ := bind_eq_ok.mp h
  obtain ⟨analysis', hanalysis, h⟩ := bind_eq_ok.mp h
  cases h
  exact ⟨parseTasks_of_parse hparse, hanalysis⟩

/-- **The code of the async pass.** -/
theorem grouped {appParams : AppParameters} {items : List ModuleItem} {app : App}
    {analysis : List SubAnalysis} (h : runPass true appParams items = .ok (app, analysis)) :
    Grouped app.tasks (generateSubapps true app analysis) := by
  obtain ⟨hparse, hanalysis⟩ := runPass_ok h
  have hlocal : ∀ sub ∈ app.subApps, ∀ task ∈ sub.swTasks, task.params.spawnBy = sub.core :=
    fun sub hsub task htask => ((cross_of_mem hparse hsub).1 task htask).2
  refine grouped_of_subApps hparse ?_ (flatMap_mapM_ok hanalysis) ?_
  · unfold generateSubapps App.tasks
    rw [List.map_flatMap]
    refine List.flatMap_congr ?_
    intro sub hsub
    obtain ⟨a, _, ha⟩ := exists_of_mapM_ok hanalysis sub hsub
    refine List.map_congr_left ?_
    intro task htask
    refine spawnImpl_eq ?_
    intro hpriority
    rcases List.mem_append.mp htask with htask | htask
    · exact ((cross_of_mem hparse hsub).1 task htask).1
    · exact absurd hpriority ((grouped_of_analyseSubapp (hlocal sub hsub) ha).2 task htask)
  · intro sub hsub
    obtain ⟨a, _, ha⟩ := exists_of_mapM_ok hanalysis sub hsub
    rw [ha]
    exact (grouped_of_analyseSubapp (hlocal sub hsub) ha).1

end Rticx.AsyncPass
