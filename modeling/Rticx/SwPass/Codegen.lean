import Rticx.Lib.Decimal
import Rticx.SwPass.App

/-!
# The code of the software tasks

`rticx-sw-pass/src/codegen` and `common/codegen.rs`: each task gets `spawn` or `cross_spawn` and an
input queue, each priority group a ready queue and a dispatcher. The statics are known by their
names; that is all that connects a spawn with the dispatcher it is for.
-/

namespace Rticx.SwPass

open Rticx.Core Rticx.Lib Rticx.Lib.Except

/-! ## Names -/

/-- `priority_ty_ident` -/
def priorityTyIdent (priority core : Nat) : Ident := s!"Core{core}Prio{priority}Tasks"

/-- `priority_queue_ident` -/
def priorityQueueIdent (prioTy : Ident) : Ident := s!"__rticx_internal__{prioTy}__RQ"

/-- `sw_task_inputs_ident` -/
def swTaskInputsIdent (task : Ident) : Ident := s!"__rticx_internal__{task}__INPUTS"

/-! ## Functions and dispatchers -/

/-- What `generate_spawn_api` makes of a task: `spawn`, or `cross_spawn`. -/
structure SpawnFn where
  task : Ident
  inputsQueue : Ident
  readyQueue : Ident
  cross : Bool
  /-- the core that `current_core_id` is compared with -/
  coreCheck : Option Nat
  deriving DecidableEq

/-- `SoftwareTask::generate_spawn_api`; `hasCoreId` is `backend.current_core_id().is_some()`. -/
def SoftwareTask.generateSpawnApi (task : SoftwareTask) (hasCoreId : Bool) : SpawnFn where
  task := task.name
  inputsQueue := swTaskInputsIdent task.name
  readyQueue := priorityQueueIdent (priorityTyIdent task.params.priority task.params.core)
  cross := task.cross
  coreCheck :=
    if hasCoreId then some (if task.cross then task.params.spawnBy else task.params.core) else none

/-- What takes the tasks of a group out of its ready queue. -/
inductive ConsumerKind where
  /-- a dispatcher of the software pass -/
  | software
  /-- a dispatcher of the async pass -/
  | async
  /-- the idle task of the async pass -/
  | idle
  deriving DecidableEq

/-- The arm of a task in the `match` of a consumer. -/
structure Arm where
  task : Ident
  inputsQueue : Ident
  deriving DecidableEq

/-- A dispatcher, or the idle executor of a core. -/
structure Consumer where
  kind : ConsumerKind
  core : Nat
  priority : Nat
  readyQueue : Ident
  arms : List Arm
  deriving DecidableEq

/-- The consumer of a priority group. -/
def Consumer.ofGroup (kind : ConsumerKind) (core priority : Nat) (tasks : List GroupTask) :
    Consumer where
  kind := kind
  core := core
  priority := priority
  readyQueue := priorityQueueIdent (priorityTyIdent priority core)
  arms := tasks.map fun task => { task := task.name, inputsQueue := swTaskInputsIdent task.name }

/-- The generated code that works on queues. -/
structure Code where
  spawns : List SpawnFn
  consumers : List Consumer

/-- `generate_dispatcher_tasks` -/
def generateDispatcherTasks (kind : ConsumerKind) (subAnalysis : SubAnalysis) : List Consumer :=
  subAnalysis.tasksPriorityMap.entries.map fun group =>
    .ofGroup kind subAnalysis.core group.1 group.2

/-- `generate_subapps` -/
def generateSubapps (hasCoreId : Bool) (app : App) (analysis : List SubAnalysis) : Code where
  spawns := app.subApps.flatMap fun sub => sub.tasks.map (·.generateSpawnApi hasCoreId)
  consumers := analysis.flatMap (generateDispatcherTasks .software)

/-! ## Different names -/

theorem priorityTyIdent_toList (priority core : Nat) :
    (priorityTyIdent priority core).toList =
      ['C', 'o', 'r', 'e'] ++ ((toString core).toList ++ 'P' :: (['r', 'i', 'o'] ++
        ((toString priority).toList ++ 'T' :: ['a', 's', 'k', 's']))) := by
  show ("Core" ++ toString core ++ "Prio" ++ toString priority ++ "Tasks").toList = _
  rw [String.toList_append, String.toList_append, String.toList_append, String.toList_append]
  simp only [List.append_assoc]
  rfl

theorem priorityQueueIdent_toList (prioTy : Ident) :
    (priorityQueueIdent prioTy).toList =
      "__rticx_internal__".toList ++ (prioTy.toList ++ ['_', '_', 'R', 'Q']) := by
  show ("__rticx_internal__" ++ prioTy ++ "__RQ").toList = _
  rw [String.toList_append, String.toList_append, List.append_assoc]
  rfl

theorem swTaskInputsIdent_toList (task : Ident) :
    (swTaskInputsIdent task).toList =
      "__rticx_internal__".toList ++
        (task.toList ++ ['_', '_', 'I', 'N', 'P', 'U', 'T', 'S']) := by
  show ("__rticx_internal__" ++ task ++ "__INPUTS").toList = _
  rw [String.toList_append, String.toList_append, List.append_assoc]
  rfl

/-- **The ready queues of different groups are different.** -/
theorem readyQueue_inj {priority core priority' core' : Nat}
    (h : priorityQueueIdent (priorityTyIdent priority core) =
      priorityQueueIdent (priorityTyIdent priority' core')) :
    priority = priority' ∧ core = core' := by
  have h := congrArg String.toList h
  rw [priorityQueueIdent_toList, priorityQueueIdent_toList] at h
  have h := List.append_cancel_right (List.append_cancel_left h)
  rw [priorityTyIdent_toList, priorityTyIdent_toList] at h
  obtain ⟨hcore, h⟩ := Decimal.toString_append_inj (by decide) (List.append_cancel_left h)
  exact ⟨(Decimal.toString_append_inj (by decide) (List.append_cancel_left h)).1, hcore⟩

/-- No input queue is a ready queue. -/
theorem inputs_ne_ready {task prioTy : Ident} :
    swTaskInputsIdent task ≠ priorityQueueIdent prioTy := by
  intro h
  have h := congrArg (fun s => s.toList.getLast?) h
  simp only [swTaskInputsIdent_toList, priorityQueueIdent_toList, List.getLast?_append] at h
  have hlast : some 'S' = some 'Q' := h
  exact absurd hlast (by decide)

/-! ## One consumer for each group -/

/-- What an accepted sub-app and its consumers are to each other. -/
structure SubApp.Grouped (sub : SubApp) (consumers : List Consumer) : Prop where
  core : ∀ k ∈ consumers, k.core = sub.core
  readyQueue : ∀ k ∈ consumers,
    k.readyQueue = priorityQueueIdent (priorityTyIdent k.priority k.core)
  priorities : (consumers.map Consumer.priority).Nodup
  consumer : ∀ task ∈ sub.tasks, ∃ k ∈ consumers, k.priority = task.params.priority
  arms_ne_nil : ∀ k ∈ consumers, k.arms ≠ []
  arms : ∀ k ∈ consumers, ∀ arm ∈ k.arms,
    ∃ task ∈ sub.tasks, task.params.priority = k.priority ∧
      arm.inputsQueue = swTaskInputsIdent task.name
  spawnBy : ∀ task ∈ sub.tasks, ∀ task' ∈ sub.tasks,
    task.params.priority = task'.params.priority → task.params.spawnBy = task'.params.spawnBy

/-- The same for all cores. -/
structure Grouped (tasks : List SoftwareTask) (code : Code) : Prop where
  spawns : code.spawns = tasks.map (·.generateSpawnApi true)
  readyQueue : ∀ k ∈ code.consumers,
    k.readyQueue = priorityQueueIdent (priorityTyIdent k.priority k.core)
  groups : (code.consumers.map fun k => (k.core, k.priority)).Nodup
  consumer : ∀ task ∈ tasks,
    ∃ k ∈ code.consumers, k.core = task.params.core ∧ k.priority = task.params.priority
  arms_ne_nil : ∀ k ∈ code.consumers, k.arms ≠ []
  arms : ∀ k ∈ code.consumers, ∀ arm ∈ k.arms,
    ∃ task ∈ tasks, task.params.core = k.core ∧ task.params.priority = k.priority ∧
      arm.inputsQueue = swTaskInputsIdent task.name
  spawnBy : ∀ task ∈ tasks, ∀ task' ∈ tasks, task.params.core = task'.params.core →
    task.params.priority = task'.params.priority → task.params.spawnBy = task'.params.spawnBy

/-- **The cores of an app do not share consumers.** -/
theorem grouped_of_subApps {pass : TaskPass} {appParams : AppParameters}
    {items : List Source.ModuleItem} {app : App} {code : Code} {consumers : SubApp → List Consumer}
    (hparse : App.parseTasks pass appParams items = .ok app)
    (hspawns : code.spawns = app.tasks.map (·.generateSpawnApi true))
    (hconsumers : code.consumers = app.subApps.flatMap consumers)
    (h : ∀ sub ∈ app.subApps, sub.Grouped (consumers sub)) : Grouped app.tasks code := by
  obtain ⟨tasks, hsubs, _⟩ := parseTasks_ok hparse
  have hcores : (app.subApps.map SubApp.core).Nodup := by
    rw [hsubs, List.map_map]
    exact (List.nodup_range).map fun core core' heq => heq
  have hsame : ∀ sub ∈ app.subApps, ∀ sub' ∈ app.subApps, sub.core = sub'.core → sub = sub' :=
    fun sub hsub sub' hsub' => List.inj_on_of_nodup_map hcores hsub hsub'
  have htask : ∀ sub ∈ app.subApps, ∀ task ∈ sub.tasks, task.params.core = sub.core := by
    intro sub hsub task htask
    rw [hsubs] at hsub
    obtain ⟨core, _, rfl⟩ := List.mem_map.mp hsub
    exact (SubApp.mem_tasks_ofTasks.mp htask).2
  constructor
  · exact hspawns
  · intro k hk
    rw [hconsumers] at hk
    obtain ⟨sub, hsub, hk⟩ := List.mem_flatMap.mp hk
    exact (h sub hsub).readyQueue k hk
  · rw [hconsumers, List.map_flatMap, List.nodup_flatMap]
    constructor
    · intro sub hsub
      exact List.Nodup.of_map Prod.snd (by
        rw [List.map_map]
        exact (h sub hsub).priorities)
    · -- consumers of different cores differ by the core
      refine (List.pairwise_map.mp hcores).imp_of_mem ?_
      intro sub sub' hsub hsub' hne key hkey hkey'
      obtain ⟨k, hk, rfl⟩ := List.mem_map.mp hkey
      obtain ⟨k', hk', heq⟩ := List.mem_map.mp hkey'
      refine hne ?_
      rw [← (h sub hsub).core k hk, ← (h sub' hsub').core k' hk']
      exact (congrArg Prod.fst heq).symm
  · intro task hmem
    obtain ⟨sub, hsub, hmem⟩ := List.mem_flatMap.mp hmem
    obtain ⟨k, hk, hpriority⟩ := (h sub hsub).consumer task hmem
    refine ⟨k, ?_, ?_, hpriority⟩
    · rw [hconsumers]
      exact List.mem_flatMap.mpr ⟨sub, hsub, hk⟩
    · rw [(h sub hsub).core k hk, htask sub hsub task hmem]
  · intro k hk
    rw [hconsumers] at hk
    obtain ⟨sub, hsub, hk⟩ := List.mem_flatMap.mp hk
    exact (h sub hsub).arms_ne_nil k hk
  · intro k hk arm harm
    rw [hconsumers] at hk
    obtain ⟨sub, hsub, hk⟩ := List.mem_flatMap.mp hk
    obtain ⟨task, hmem, hpriority, hinputs⟩ := (h sub hsub).arms k hk arm harm
    refine ⟨task, List.mem_flatMap.mpr ⟨sub, hsub, hmem⟩, ?_, hpriority, hinputs⟩
    rw [(h sub hsub).core k hk, htask sub hsub task hmem]
  · intro task hmem task' hmem' hcore hpriority
    obtain ⟨sub, hsub, hmem⟩ := List.mem_flatMap.mp hmem
    obtain ⟨sub', hsub', hmem'⟩ := List.mem_flatMap.mp hmem'
    rw [htask sub hsub task hmem, htask sub' hsub' task' hmem'] at hcore
    cases hsame sub hsub sub' hsub' hcore
    exact (h sub hsub).spawnBy task hmem task' hmem' hpriority

/-- The consumers of priority groups; `kind` makes no difference. -/
theorem mem_generateDispatcherTasks {kind : ConsumerKind} {a : SubAnalysis} {k : Consumer} :
    k ∈ generateDispatcherTasks kind a ↔
      ∃ group ∈ a.tasksPriorityMap.entries, .ofGroup kind a.core group.1 group.2 = k :=
  List.mem_map

/-- **The dispatchers of a core serve the groups of the tasks they were made from.** -/
theorem grouped_of_analyseGroups {sub : SubApp} {swTasks : List SoftwareTask}
    {prio0Tasks : List GroupTask} {a : SubAnalysis} {kind : ConsumerKind}
    (hlocal : ∀ task ∈ swTasks, task.params.spawnBy = sub.core)
    (h : analyseGroups sub (groupByPriority swTasks fun _ => sub.core)
      (groupByPriority sub.mcSwTasks fun task => task.params.spawnBy) prio0Tasks = .ok a) :
    { sub with swTasks := swTasks }.Grouped (generateDispatcherTasks kind a) := by
  obtain ⟨hcore, _, hmap, hspawnBy⟩ := analyseGroups_ok hlocal h
  -- each group comes from one of the two maps
  have hfrom : ∀ group ∈ a.tasksPriorityMap.entries, ∃ tasks spawnerCore,
      (∀ task ∈ tasks, task ∈ swTasks ++ sub.mcSwTasks) ∧
        group ∈ (groupByPriority tasks spawnerCore).entries := by
    intro group hgroup
    rw [hmap] at hgroup
    rcases SortedMap.mem_extend hgroup with hgroup | hgroup
    · exact ⟨_, _, fun task => List.mem_append_right _, hgroup⟩
    · exact ⟨_, _, fun task => List.mem_append_left _, hgroup⟩
  constructor
  · intro k hk
    obtain ⟨group, _, rfl⟩ := mem_generateDispatcherTasks.mp hk
    exact hcore
  · intro k hk
    obtain ⟨group, _, rfl⟩ := mem_generateDispatcherTasks.mp hk
    rfl
  · have hkeys : (generateDispatcherTasks kind a).map Consumer.priority =
        a.tasksPriorityMap.keys := by
      unfold generateDispatcherTasks SortedMap.keys
      rw [List.map_map]
      rfl
    rw [hkeys]
    exact a.tasksPriorityMap.sorted.imp fun hlt => Nat.ne_of_lt hlt
  · intro task htask
    have hkey : task.params.priority ∈ a.tasksPriorityMap.keys := by
      rw [hmap, SortedMap.mem_keys_extend]
      rcases List.mem_append.mp htask with htask | htask
      · exact Or.inr (mem_keys_groupByPriority.mpr ⟨task, htask, rfl⟩)
      · exact Or.inl (mem_keys_groupByPriority.mpr ⟨task, htask, rfl⟩)
    obtain ⟨group, hgroup, hpriority⟩ := List.mem_map.mp hkey
    exact ⟨_, mem_generateDispatcherTasks.mpr ⟨group, hgroup, rfl⟩, hpriority⟩
  · intro k hk
    obtain ⟨group, hgroup, rfl⟩ := mem_generateDispatcherTasks.mp hk
    obtain ⟨_, _, _, hgroup⟩ := hfrom group hgroup
    exact fun hnil => (mem_groupByPriority hgroup).2 (List.map_eq_nil_iff.mp hnil)
  · intro k hk arm harm
    obtain ⟨group, hgroup, rfl⟩ := mem_generateDispatcherTasks.mp hk
    obtain ⟨entry, hentry, rfl⟩ := List.mem_map.mp harm
    obtain ⟨tasks, spawnerCore, hsub, hgroup⟩ := hfrom group hgroup
    rw [(mem_groupByPriority hgroup).1] at hentry
    obtain ⟨task, htask, rfl⟩ := List.mem_map.mp hentry
    obtain ⟨htask, hpriority⟩ := List.mem_filter.mp htask
    have hpriority : task.params.priority = group.1 := by simpa using hpriority
    exact ⟨task, hsub task htask, hpriority, rfl⟩
  · exact hspawnBy

/-- The sub-apps of an app have core-local tasks and cross-core tasks. -/
theorem cross_of_mem {pass : TaskPass} {appParams : AppParameters} {items : List Source.ModuleItem}
    {app : App} (hparse : App.parseTasks pass appParams items = .ok app) {sub : SubApp}
    (hsub : sub ∈ app.subApps) :
    (∀ task ∈ sub.swTasks, task.cross = false ∧ task.params.spawnBy = sub.core) ∧
      ∀ task ∈ sub.mcSwTasks, task.cross = true := by
  obtain ⟨tasks, hsubs, _⟩ := parseTasks_ok hparse
  rw [hsubs] at hsub
  obtain ⟨core, _, rfl⟩ := List.mem_map.mp hsub
  constructor
  · intro task htask
    have hspec : task.params.core = core ∧ task.cross = false := by
      simpa using (List.mem_filter.mp htask).2
    exact ⟨hspec.2, (SoftwareTask.spawnBy_of_cross hspec.2).trans hspec.1⟩
  · intro task htask
    have hspec : task.params.core = core ∧ task.cross = true := by
      simpa using (List.mem_filter.mp htask).2
    exact hspec.2

/-- **The code of the software pass.** -/
theorem grouped {appParams : AppParameters} {items : List Source.ModuleItem} {app : App}
    {analysis : List SubAnalysis} (h : runPass true appParams items = .ok (app, analysis)) :
    Grouped app.tasks (generateSubapps true app analysis) := by
  obtain ⟨parsed, hparse, h⟩ := bind_eq_ok.mp h
  obtain ⟨_, _, h⟩ := bind_eq_ok.mp h
  obtain ⟨analysis', hanalysis, h⟩ := bind_eq_ok.mp h
  cases h
  refine grouped_of_subApps hparse ?_ (flatMap_mapM_ok hanalysis) ?_
  · unfold generateSubapps App.tasks
    rw [List.map_flatMap]
  · intro sub hsub
    obtain ⟨a, _, ha⟩ := exists_of_mapM_ok hanalysis sub hsub
    rw [ha]
    exact grouped_of_analyseGroups (fun task htask => ((cross_of_mem hparse hsub).1 task htask).2) ha

end Rticx.SwPass
