import Rticx.Core.Source
import Rticx.Lib.SortedMap
import Rticx.SwPass.Params
import Rticx.SwPass.Spawn

/-!
# Parsing and analysing software tasks

`rticx-sw-pass/src/parse` and `analyze.rs`, and what the async pass has in common with it: the
structs with the attribute of the pass become tasks, together with the implementation of its trait,
and everything else stays as it is; then the tasks of a core are grouped by priority, and each group
gets a dispatcher.
-/

namespace Rticx.SwPass

open Rticx.Core Rticx.Core.Source Rticx.Lib Rticx.Lib.Except

abbrev Path := List Ident

/-- The two passes over software tasks. -/
inductive TaskPass where
  | software
  | async
  deriving DecidableEq

/-- The attribute of a task. -/
def TaskPass.attrName : TaskPass → Ident
  | .software => "sw_task"
  | .async => "async_task"

/-- `SWT_TRAIT_TY` and `ASYNC_TASK_TRAIT_TY` -/
def TaskPass.traitTy : TaskPass → Ident
  | .software => "RticSwTask"
  | .async => "RticAsyncTask"

/-- `AppParameters`, as far as parsing and analysis read them. -/
structure AppParameters where
  dispatchers : AList fun _ : Nat => List Path
  cores : Nat

/-- `SoftwareTask`, and `AsyncTask`. -/
structure SoftwareTask where
  params : TaskParams
  taskAttr : RticAttr
  taskStruct : ItemStruct
  taskImpl : Option ItemImpl

def SoftwareTask.name (task : SoftwareTask) : Ident := task.taskStruct.ident

/-- The task may be spawned from another core than its own. -/
def SoftwareTask.cross (task : SoftwareTask) : Bool := task.params.core != task.params.spawnBy

/-- The core that may spawn the task. -/
def SoftwareTask.producer (task : SoftwareTask) : Nat :=
  if task.cross then task.params.spawnBy else task.params.core

structure SubApp where
  core : Nat
  dispatchers : List Path
  /-- core-local tasks -/
  swTasks : List SoftwareTask
  /-- tasks that are spawned on this core from other cores -/
  mcSwTasks : List SoftwareTask

/-- `sub_app.sw_tasks.iter().chain(sub_app.mc_sw_tasks.iter())` -/
def SubApp.tasks (sub : SubApp) : List SoftwareTask := sub.swTasks ++ sub.mcSwTasks

structure App where
  appParams : AppParameters
  subApps : List SubApp
  restOfCode : List ModuleItem

def App.tasks (app : App) : List SoftwareTask := app.subApps.flatMap SubApp.tasks

/-! ## Parsing -/

/-- `item_attrs` -/
def itemAttrs : ModuleItem → Option (List Attribute)
  | .fn function => some function.attrs
  | .strct strct => some strct.attrs
  | .use item | .other item => some item.attrs
  | .impl _ => none

/-- `get_task_implementor` -/
def getTaskImplementor (implItem : ItemImpl) (traitTy : Ident) : Option Ident :=
  match implItem.traitPath.bind List.getLast? with
  | some traitName =>
    if traitTy.toList <:+ traitName.toList then implItem.selfTy.bind List.getLast? else none
  | none => none

/-- `take_impl_for`: the implementation for the task, and those that are left. -/
def takeImplFor (impls : List (Ident × ItemImpl)) (ident traitTy : Ident) :
    Except String (Option ItemImpl × List (Ident × ItemImpl)) :=
  match impls.filter (·.1 = ident) with
  | [] => .ok (none, impls)
  | [found] => .ok (some found.2, impls.filter (·.1 ≠ ident))
  | _ => .error s!"Multiple `{traitTy}` implementations found for task `{ident}`."

/-- Where the first loop of `App::parse` puts an item. -/
inductive PassItem where
  /-- without the attribute that decides it -/
  | taskStruct (strct : ItemStruct) (attr : Attribute)
  | taskImpl (implementor : Ident) (implItem : ItemImpl)
  | restOfCode (item : ModuleItem)

/-- The body of the loop. -/
def sortItem (pass : TaskPass) (item : ModuleItem) : Except String PassItem :=
  match item with
  | .strct strct =>
    match takeAttr pass.attrName strct.attrs with
    | some (attr, attrs) => .ok (.taskStruct { strct with attrs := attrs } attr)
    | none => .ok (.restOfCode item)
  | .impl implItem =>
    match getTaskImplementor implItem pass.traitTy with
    | some implementor => .ok (.taskImpl implementor implItem)
    | none => .ok (.restOfCode item)
  | .fn _ | .use _ | .other _ =>
    if (itemAttrs item).any fun attrs => (takeAttr pass.attrName attrs).isSome then
      .error s!"`#[{pass.attrName}]` can only be applied to structs."
    else .ok (.restOfCode item)

def PassItem.taskStruct? : PassItem → Option (ItemStruct × Attribute)
  | .taskStruct strct attr => some (strct, attr)
  | _ => none

def PassItem.taskImpl? : PassItem → Option (Ident × ItemImpl)
  | .taskImpl implementor implItem => some (implementor, implItem)
  | _ => none

def PassItem.restOfCode? : PassItem → Option ModuleItem
  | .restOfCode item => some item
  | _ => none

/-- The body of the second loop, which takes the implementations of its task. -/
def parseTask (pass : TaskPass) (cores : Nat) (impls : List (Ident × ItemImpl))
    (taskStruct : ItemStruct) (attr : Attribute) :
    Except String (SoftwareTask × List (Ident × ItemImpl)) := do
  let (taskImpl, impls) ← takeImplFor impls taskStruct.ident pass.traitTy
  let attr ← fromMeta attr
  let params ← TaskParams.fromAttr attr
  if cores ≤ params.core then
    .error (s!"Task `{taskStruct.ident}` has `core = {params.core}`, but the application only has " ++
      s!"{cores} core(s).")
  else if cores ≤ params.spawnBy then
    .error (s!"Task `{taskStruct.ident}` has `spawn_by = {params.spawnBy}`, but the application " ++
      s!"only has {cores} core(s).")
  else
    return ({
      params := params
      taskAttr := intoTaskAttr attr pass.traitTy
      taskStruct := taskStruct
      taskImpl := taskImpl }, impls)

/-- The sub-app of a core. -/
def SubApp.ofTasks (appParams : AppParameters) (tasks : List SoftwareTask) (core : Nat) : SubApp where
  core := core
  dispatchers := (appParams.dispatchers.lookup core).getD []
  swTasks := tasks.filter fun task => task.params.core = core ∧ task.cross = false
  mcSwTasks := tasks.filter fun task => task.params.core = core ∧ task.cross = true

/-- What `App::parse` is in both passes. -/
def App.parseTasks (pass : TaskPass) (appParams : AppParameters) (items : List ModuleItem) :
    Except String App := do
  let sorted ← items.mapM (sortItem pass)
  let (tasks, impls) ← (sorted.filterMap PassItem.taskStruct?).foldlM (fun acc entry => do
    let (task, impls) ← parseTask pass appParams.cores acc.2 entry.1 entry.2
    return (acc.1 ++ [task], impls)) ([], sorted.filterMap PassItem.taskImpl?)
  return {
    appParams := appParams
    subApps := (List.range appParams.cores).map (SubApp.ofTasks appParams tasks)
    -- the implementations that are left are written out again
    restOfCode := sorted.filterMap PassItem.restOfCode? ++ impls.map fun entry => .impl entry.2 }

/-- `App::parse` of the software pass. -/
def App.parse (appParams : AppParameters) (items : List ModuleItem) : Except String App :=
  App.parseTasks .software appParams items

/-! ## Analysis -/

/-- The tasks of a core by priority. -/
abbrev PriorityGroup := SortedMap Nat (List GroupTask)

/-- The entry of a task, which may be spawned from the core `spawnerCore`. -/
def SoftwareTask.entry (spawnerCore : SoftwareTask → Nat) (task : SoftwareTask) : GroupTask where
  name := task.name
  spawnBy := spawnerCore task
  capacity := task.params.capacity

/-- `group_by_priority` -/
def groupByPriority (tasks : List SoftwareTask) (spawnerCore : SoftwareTask → Nat) :
    PriorityGroup :=
  tasks.foldl (fun groups task =>
    groups.update task.params.priority fun group => group.getD [] ++ [task.entry spawnerCore]) .empty

/-- `check_disjoint_priorities` -/
def checkDisjointPriorities (swTasks mcTasks : PriorityGroup) (core : Nat) : Except String Unit :=
  if mcTasks.keys.any fun priority => (swTasks.get? priority).isSome then
    .error (s!"The priority of some tasks with `spawn_by` argument in core {core} have overlapping " ++
      "priority with other core-local software tasks, which is forbidden.")
  else .ok ()

/-- The check of one group. -/
def checkGroupSpawnBy (group : List GroupTask) : Except String Unit :=
  match group with
  | [] => .ok ()
  | task1 :: _ =>
    match group.find? fun taskX => decide (task1.spawnBy ≠ taskX.spawnBy) with
    | some taskX =>
      .error (s!"{task1.name} and {taskX.name} have the same priority but they are spawned by " ++
        "different cores which is forbidden.")
    | none => .ok ()

/-- `check_uniform_spawn_by` -/
def checkUniformSpawnBy (mcTasks : PriorityGroup) : Except String Unit :=
  mcTasks.entries.forM fun group => checkGroupSpawnBy group.2

/-- `assign_dispatchers` -/
def assignDispatchers (tasksPriorityMap : PriorityGroup) (dispatchers : List Path) :
    Except String (SortedMap Nat Path) :=
  let nDispatchers := dispatchers.length
  let nPriorityGroups := tasksPriorityMap.keys.length
  if nDispatchers < nPriorityGroups then
    .error s!"Expected {nPriorityGroups} dispatchers, but found {nDispatchers}."
  else
    .ok ((tasksPriorityMap.keys.zip dispatchers).foldl
      (fun assigned entry => assigned.update entry.1 fun _ => entry.2) .empty)

/-- `SubAnalysis`; the software pass has no priority-0 tasks of the idle executor. -/
structure SubAnalysis where
  core : Nat
  tasksPriorityMap : PriorityGroup
  dispatcherPriorityMap : SortedMap Nat Path
  prio0Tasks : List GroupTask

/-- The checks of the groups of a core, and its dispatchers. -/
def analyseGroups (subApp : SubApp) (swTasks mcTasks : PriorityGroup) (prio0Tasks : List GroupTask) :
    Except String SubAnalysis := do
  checkDisjointPriorities swTasks mcTasks subApp.core
  checkUniformSpawnBy mcTasks
  let tasksPriorityMap := swTasks.extend mcTasks
  let dispatcherPriorityMap ← assignDispatchers tasksPriorityMap subApp.dispatchers
  return {
    core := subApp.core
    tasksPriorityMap := tasksPriorityMap
    dispatcherPriorityMap := dispatcherPriorityMap
    prio0Tasks := prio0Tasks }

/-- `SubAnalysis::analyse_subapp` -/
def SubAnalysis.analyseSubapp (subApp : SubApp) : Except String SubAnalysis :=
  analyseGroups subApp (groupByPriority subApp.swTasks fun _ => subApp.core)
    (groupByPriority subApp.mcSwTasks fun task => task.params.spawnBy) []

/-- Both passes refuse cross-core tasks if the backend cannot tell the core. -/
def checkCurrentCoreId (hasCoreId : Bool) (app : App) (message : String) : Except String Unit :=
  if app.subApps.any (fun sub => !sub.mcSwTasks.isEmpty) && !hasCoreId then .error message
  else .ok ()

/-- `SoftwarePass::run_pass`, up to the code generation; `hasCoreId` is
`backend.current_core_id().is_some()`. -/
def runPass (hasCoreId : Bool) (appParams : AppParameters) (items : List ModuleItem) :
    Except String (App × List SubAnalysis) := do
  let parsed ← App.parse appParams items
  checkCurrentCoreId hasCoreId parsed ("this application has cross-core tasks (`spawn_by != core`), " ++
    "but the distribution backend does not implement `SwPassBackend::current_core_id`. Multicore " ++
    "distributions must provide a runtime core-id expression to enforce cross-core spawning.")
  let analysis ← parsed.subApps.mapM SubAnalysis.analyseSubapp
  return (parsed, analysis)

/-! ## What parsing has read -/

variable {pass : TaskPass} {appParams : AppParameters} {items : List ModuleItem} {app : App}

theorem parseTask_ok {cores : Nat} {impls impls' : List (Ident × ItemImpl)} {strct : ItemStruct}
    {attr : Attribute} {task : SoftwareTask}
    (h : parseTask pass cores impls strct attr = .ok (task, impls')) :
    task.params.core < cores ∧ task.params.spawnBy < cores := by
  obtain ⟨_, _, h⟩ := bind_eq_ok.mp h
  obtain ⟨_, _, h⟩ := bind_eq_ok.mp h
  obtain ⟨_, _, h⟩ := bind_eq_ok.mp h
  split at h
  · cases h
  · rename_i hcore
    split at h
    · cases h
    · rename_i hspawnBy
      cases h
      exact ⟨Nat.lt_of_not_le hcore, Nat.lt_of_not_le hspawnBy⟩

/-- **The sub-apps share out the tasks of the module.** -/
theorem parseTasks_ok (h : App.parseTasks pass appParams items = .ok app) :
    ∃ tasks : List SoftwareTask,
      app.subApps = (List.range appParams.cores).map (SubApp.ofTasks appParams tasks) ∧
      ∀ task ∈ tasks, task.params.core < appParams.cores ∧ task.params.spawnBy < appParams.cores := by
  obtain ⟨sorted, hsorted, h⟩ := bind_eq_ok.mp h
  obtain ⟨⟨tasks, impls⟩, hloop, h⟩ := bind_eq_ok.mp h
  cases h
  refine ⟨tasks, rfl, ?_⟩
  refine foldlM_ok (P := fun acc => ∀ task ∈ acc.1, task.params.core < appParams.cores ∧
    task.params.spawnBy < appParams.cores) ?_ (by simp) hloop
  intro acc entry acc' _ hacc hstep task htask
  obtain ⟨⟨task', impls⟩, hparse, hstep⟩ := bind_eq_ok.mp hstep
  cases hstep
  rcases List.mem_append.mp htask with htask | htask
  · exact hacc task htask
  · rw [List.mem_singleton.mp htask]
    exact parseTask_ok hparse

theorem SubApp.mem_tasks_ofTasks {tasks : List SoftwareTask} {core : Nat} {task : SoftwareTask} :
    task ∈ (SubApp.ofTasks appParams tasks core).tasks ↔
      task ∈ tasks ∧ task.params.core = core := by
  simp only [SubApp.tasks, SubApp.ofTasks, List.mem_append, List.mem_filter]
  cases task.cross <;> simp

/-- A core-local task is spawned on its core. -/
theorem SoftwareTask.spawnBy_of_cross {task : SoftwareTask} (h : task.cross = false) :
    task.params.spawnBy = task.params.core := by
  unfold SoftwareTask.cross at h
  exact (bne_eq_false_iff_eq.mp h).symm

/-! ## Groups -/

/-- **A group holds the tasks of its priority, in order.** -/
theorem get?_groupByPriority (tasks : List SoftwareTask) (spawnerCore : SoftwareTask → Nat)
    (priority : Nat) :
    (groupByPriority tasks spawnerCore).get? priority =
      if tasks.filter (·.params.priority = priority) = [] then none
      else some ((tasks.filter (·.params.priority = priority)).map
        (SoftwareTask.entry spawnerCore)) := by
  induction tasks using List.reverseRecOn with
  | nil => rfl
  | append_singleton tasks task ih =>
    unfold groupByPriority at ih ⊢
    rw [List.foldl_append, List.foldl_cons, List.foldl_nil, SortedMap.get?_update,
      List.filter_append]
    by_cases hp : task.params.priority = priority
    · subst hp
      rw [if_pos rfl, ih]
      split
      · rename_i hnil
        simp [hnil]
      · simp
    · rw [if_neg (Ne.symm hp), ih]
      simp [hp]

theorem mem_groupByPriority {tasks : List SoftwareTask} {spawnerCore : SoftwareTask → Nat}
    {group : Nat × List GroupTask} (h : group ∈ (groupByPriority tasks spawnerCore).entries) :
    group.2 = (tasks.filter (·.params.priority = group.1)).map (SoftwareTask.entry spawnerCore) ∧
      group.2 ≠ [] := by
  have hget := SortedMap.get?_eq_some.mpr h
  rw [get?_groupByPriority] at hget
  split at hget
  · cases hget
  · rename_i hne
    refine ⟨(Option.some.inj hget).symm, ?_⟩
    rw [← Option.some.inj hget]
    simpa using hne

theorem mem_keys_groupByPriority {tasks : List SoftwareTask} {spawnerCore : SoftwareTask → Nat}
    {priority : Nat} :
    priority ∈ (groupByPriority tasks spawnerCore).keys ↔
      ∃ task ∈ tasks, task.params.priority = priority := by
  rw [SortedMap.mem_keys, get?_groupByPriority]
  constructor
  · rintro ⟨_, h⟩
    split at h
    · cases h
    · rename_i hne
      obtain ⟨task, htask⟩ := List.exists_mem_of_ne_nil _ hne
      rw [List.mem_filter] at htask
      exact ⟨task, htask.1, by simpa using htask.2⟩
  · rintro ⟨task, htask, hpriority⟩
    have hmem : task ∈ tasks.filter (·.params.priority = priority) := by
      simp [htask, hpriority]
    rw [if_neg (List.ne_nil_of_mem hmem)]
    exact ⟨_, rfl⟩

/-! ## The checks -/

theorem checkDisjointPriorities_iff {swTasks mcTasks : PriorityGroup} {core : Nat} :
    checkDisjointPriorities swTasks mcTasks core = .ok () ↔
      ∀ priority ∈ mcTasks.keys, priority ∉ swTasks.keys := by
  have hany : (mcTasks.keys.any fun priority => (swTasks.get? priority).isSome) = true ↔
      ¬ ∀ priority ∈ mcTasks.keys, priority ∉ swTasks.keys := by
    simp only [List.any_eq_true, SortedMap.mem_keys, Option.isSome_iff_exists]
    push Not
    rfl
  unfold checkDisjointPriorities
  split
  · rename_i h
    exact ⟨by rintro ⟨⟩, fun hall => absurd hall (hany.mp h)⟩
  · rename_i h
    exact ⟨fun _ => not_not.mp (mt hany.mpr h), fun _ => rfl⟩

theorem checkGroupSpawnBy_iff {group : List GroupTask} :
    checkGroupSpawnBy group = .ok () ↔
      ∀ task ∈ group, ∀ task' ∈ group, task.spawnBy = task'.spawnBy := by
  cases group with
  | nil => exact ⟨fun _ task htask => absurd htask List.not_mem_nil, fun _ => rfl⟩
  | cons task1 tasks =>
    simp only [checkGroupSpawnBy]
    split
    · rename_i taskX hfind
      have hne := List.find?_some hfind
      refine ⟨by rintro ⟨⟩, fun hall => ?_⟩
      have heq := hall task1 List.mem_cons_self taskX (List.mem_of_find?_eq_some hfind)
      simp [heq] at hne
    · rename_i hfind
      refine ⟨fun _ => ?_, fun _ => rfl⟩
      -- everyone is compared with the first
      have hall : ∀ task ∈ task1 :: tasks, task1.spawnBy = task.spawnBy := by
        intro task htask
        have hne := List.find?_eq_none.mp hfind task htask
        simpa using hne
      intro task htask task' htask'
      exact (hall task htask).symm.trans (hall task' htask')

/-- **Each group is spawned from one core.** -/
theorem checkUniformSpawnBy_iff {tasks : List SoftwareTask} {spawnerCore : SoftwareTask → Nat} :
    checkUniformSpawnBy (groupByPriority tasks spawnerCore) = .ok () ↔
      ∀ task ∈ tasks, ∀ task' ∈ tasks, task.params.priority = task'.params.priority →
        spawnerCore task = spawnerCore task' := by
  unfold checkUniformSpawnBy
  rw [forM_ok_iff]
  constructor
  · intro hchecked task htask task' htask' heq
    -- both are entries of the group of their priority
    obtain ⟨group, hgroup⟩ :=
      SortedMap.mem_keys.mp ((@mem_keys_groupByPriority tasks spawnerCore _).mpr ⟨task, htask, rfl⟩)
    have hentry := SortedMap.get?_eq_some.mp hgroup
    have htasks : group = _ := (mem_groupByPriority hentry).1
    have hmem : ∀ t ∈ tasks, t.params.priority = task.params.priority →
        t.entry spawnerCore ∈ group := by
      intro t ht htp
      rw [htasks]
      refine List.mem_map_of_mem (List.mem_filter.mpr ⟨ht, ?_⟩)
      simpa using htp
    exact checkGroupSpawnBy_iff.mp (hchecked _ hentry) _ (hmem task htask rfl) _
      (hmem task' htask' heq.symm)
  · intro huniform group hgroup
    refine checkGroupSpawnBy_iff.mpr ?_
    rw [(mem_groupByPriority hgroup).1]
    intro x hx y hy
    obtain ⟨task, htask, rfl⟩ := List.mem_map.mp hx
    obtain ⟨task', htask', rfl⟩ := List.mem_map.mp hy
    obtain ⟨htask, hp⟩ := List.mem_filter.mp htask
    obtain ⟨htask', hp'⟩ := List.mem_filter.mp htask'
    exact huniform task htask task' htask' ((of_decide_eq_true hp).trans (of_decide_eq_true hp').symm)

/-- **The dispatchers are dealt out in the order of the priorities.** -/
theorem assignDispatchers_iff {groups : PriorityGroup} {dispatchers : List Path}
    {assigned : SortedMap Nat Path} :
    assignDispatchers groups dispatchers = .ok assigned ↔
      groups.keys.length ≤ dispatchers.length ∧ assigned.entries = groups.keys.zip dispatchers := by
  simp only [assignDispatchers]
  split
  · rename_i hlt
    exact ⟨by rintro ⟨⟩, fun h => absurd h.1 (Nat.not_le_of_lt hlt)⟩
  · rename_i hle
    have hle := Nat.le_of_not_lt hle
    have hkeys : ((groups.keys.zip dispatchers).map Prod.fst).Pairwise (· < ·) := by
      rw [List.map_fst_zip hle]
      exact groups.sorted
    have hentries := SortedMap.entries_foldl_update hkeys
    constructor
    · intro h
      cases h
      exact ⟨hle, hentries⟩
    · rintro ⟨-, h⟩
      refine congrArg Except.ok ?_
      obtain ⟨entries, sorted⟩ := assigned
      obtain rfl : entries = _ := h
      generalize List.foldl _ _ _ = m at hentries
      obtain ⟨entries, sorted'⟩ := m
      obtain rfl : entries = _ := hentries
      rfl

/-- **When the checks of a core succeed, and what they leave.** -/
theorem analyseGroups_iff {subApp : SubApp} {swTasks mcTasks : List SoftwareTask}
    {prio0Tasks : List GroupTask} {sub : SubAnalysis} :
    analyseGroups subApp (groupByPriority swTasks fun _ => subApp.core)
        (groupByPriority mcTasks fun task => task.params.spawnBy) prio0Tasks = .ok sub ↔
      (∀ task ∈ swTasks, ∀ task' ∈ mcTasks, task.params.priority ≠ task'.params.priority) ∧
      (∀ task ∈ mcTasks, ∀ task' ∈ mcTasks, task.params.priority = task'.params.priority →
        task.params.spawnBy = task'.params.spawnBy) ∧
      sub.core = subApp.core ∧ sub.prio0Tasks = prio0Tasks ∧
      sub.tasksPriorityMap = (groupByPriority swTasks fun _ => subApp.core).extend
        (groupByPriority mcTasks fun task => task.params.spawnBy) ∧
      sub.tasksPriorityMap.keys.length ≤ subApp.dispatchers.length ∧
      sub.dispatcherPriorityMap.entries = sub.tasksPriorityMap.keys.zip subApp.dispatchers := by
  have hdisjoint : checkDisjointPriorities (groupByPriority swTasks fun _ => subApp.core)
      (groupByPriority mcTasks fun task => task.params.spawnBy) subApp.core = .ok () ↔
        ∀ task ∈ swTasks, ∀ task' ∈ mcTasks, task.params.priority ≠ task'.params.priority := by
    rw [checkDisjointPriorities_iff]
    simp only [mem_keys_groupByPriority]
    constructor
    · intro h task htask task' htask' heq
      exact h _ ⟨task', htask', rfl⟩ ⟨task, htask, heq⟩
    · rintro h _ ⟨task', htask', rfl⟩ ⟨task, htask, heq⟩
      exact h task htask task' htask' heq
  rw [← hdisjoint, ← checkUniformSpawnBy_iff]
  constructor
  · intro h
    obtain ⟨_, hdisjoint, h⟩ := bind_eq_ok.mp h
    obtain ⟨_, huniform, h⟩ := bind_eq_ok.mp h
    obtain ⟨_, hassigned, h⟩ := bind_eq_ok.mp h
    cases h
    exact ⟨hdisjoint, huniform, rfl, rfl, rfl, assignDispatchers_iff.mp hassigned⟩
  · rintro ⟨hdisjoint, huniform, hcore, hprio0, hmap, hassigned⟩
    obtain ⟨core, tasksPriorityMap, dispatcherPriorityMap, prio0Tasks'⟩ := sub
    subst hcore hprio0 hmap
    refine bind_eq_ok.mpr ⟨_, hdisjoint, bind_eq_ok.mpr ⟨_, huniform, ?_⟩⟩
    exact bind_eq_ok.mpr ⟨_, assignDispatchers_iff.mpr hassigned, rfl⟩

/-- **One spawning core for each priority.** -/
theorem analyseGroups_ok {subApp : SubApp} {swTasks mcTasks : List SoftwareTask}
    {prio0Tasks : List GroupTask} {sub : SubAnalysis}
    (hlocal : ∀ task ∈ swTasks, task.params.spawnBy = subApp.core)
    (h : analyseGroups subApp (groupByPriority swTasks fun _ => subApp.core)
      (groupByPriority mcTasks fun task => task.params.spawnBy) prio0Tasks = .ok sub) :
    sub.core = subApp.core ∧ sub.prio0Tasks = prio0Tasks ∧
      sub.tasksPriorityMap = (groupByPriority swTasks fun _ => subApp.core).extend
        (groupByPriority mcTasks fun task => task.params.spawnBy) ∧
      ∀ task ∈ swTasks ++ mcTasks, ∀ task' ∈ swTasks ++ mcTasks,
        task.params.priority = task'.params.priority →
          task.params.spawnBy = task'.params.spawnBy := by
  obtain ⟨hdisjoint, huniform, hcore, hprio0, hmap, -⟩ := analyseGroups_iff.mp h
  refine ⟨hcore, hprio0, hmap, fun task htask task' htask' heq => ?_⟩
  rcases List.mem_append.mp htask with hl | hm
  · rcases List.mem_append.mp htask' with hl' | hm'
    · rw [hlocal task hl, hlocal task' hl']
    · exact absurd heq (hdisjoint task hl task' hm')
  · rcases List.mem_append.mp htask' with hl' | hm'
    · exact absurd heq.symm (hdisjoint task' hl' task hm)
    · exact huniform task hm task' hm' heq

end Rticx.SwPass
