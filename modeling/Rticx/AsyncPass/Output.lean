import Rticx.AsyncPass.Codegen
import Rticx.AsyncPass.Slots
import Rticx.SwPass.Output

/-!
# The module that the async pass hands on

`CodeGen::run` of `rticx-async-pass/src/codegen/mod.rs`, as `SwPass.Output` has that of the software
pass. Each task gets an executor slot with a wrapper and a wake function besides, each priority group
a second queue, and the tasks of priority 0 an `#[idle]` task of their core.
-/

namespace Rticx.AsyncPass

open Rticx.Core (Ident)
open Rticx.Core.Source (ModuleItem ItemFn ItemStruct Attribute)
open Rticx.Lib Rticx.Lib.Except Rticx.SwPass

/-! ## Items -/

/-- `overflow_queue_ident` -/
def overflowQueueIdent (prioTy : Ident) : Ident := s!"__rticx_internal__{prioTy}__OQ"

/-- `install_fn_ident` -/
def installFnIdent (prioTy : Ident) : Ident := s!"__rticx_internal__{prioTy}__try_install"

/-- `exec_wake_ident` -/
def execWakeIdent (taskIdent : Ident) : Ident := s!"__rticx_internal__{taskIdent}__wake"

/-- `async_wrapper_ident` -/
def asyncWrapperIdent (taskIdent : Ident) : Ident := s!"__rticx_async_{taskIdent}"

/-- `idle_executor_ident` -/
def idleExecutorIdent (core : Nat) : Ident := s!"__RticxAsyncPrio0ExecutorCore{core}"

/-- The three items of `generate_exec_static_and_wake`; the wake function of a task that is not polled
by the idle executor pends the dispatcher. -/
def execStaticAndWake (subAnalysis : SubAnalysis) (task : SoftwareTask) :
    Except String (ModuleItem × ModuleItem × ModuleItem) := do
  let wakeFn : ModuleItem := .fn ⟨execWakeIdent task.name, [docHidden], "()"⟩
  if task.params.priority ≠ 0 then
    let _ ← unwrap unwrapNone (subAnalysis.dispatcherPriorityMap.get? task.params.priority)
  return (.fn ⟨asyncWrapperIdent task.name, [docHidden], "(task, input)"⟩,
    .other ⟨[docHidden], execPtrIdent task.name⟩, wakeFn)

/-- The enum, the queues, the install function and the dispatcher of a priority group. -/
def dispatcherItems (dispatcherIrqName : Path) (priority core : Nat) : List ModuleItem :=
  [.other ⟨[docHidden], priorityTyIdent priority core⟩,
    .other ⟨[docHidden], priorityQueueIdent (priorityTyIdent priority core)⟩,
    .other ⟨[docHidden], overflowQueueIdent (priorityTyIdent priority core)⟩,
    .fn ⟨installFnIdent (priorityTyIdent priority core), [docHidden], "(task) -> bool"⟩,
    .strct (dispatcherStruct dispatcherIrqName priority core),
    .impl ⟨some ["RticTask"], some [dispatcherIdent priority core], "exec"⟩]

/-- `generate_dispatcher_tasks` -/
def dispatcherTasks (subAnalysis : SubAnalysis) : Except String (List ModuleItem) :=
  dispatcherTasksOf dispatcherItems subAnalysis

/-- `#[idle(core = #core_nbr, init = generated)]` -/
def idleAttribute (core : Nat) : Attribute where
  path := ["idle"]
  args := .list [("core", some (.int core)), ("init", some (.path ["generated"]))]

def idleStruct (core : Nat) : ItemStruct where
  ident := idleExecutorIdent core
  attrs := [idleAttribute core]
  fields := []
  tokens := ";"

/-- `generate_idle_executor` -/
def idleExecutor (prio0Tasks : List GroupTask) (core : Nat) : List ModuleItem :=
  if prio0Tasks.isEmpty then []
  else
    [.other ⟨[docHidden], priorityTyIdent 0 core⟩,
      .other ⟨[docHidden], priorityQueueIdent (priorityTyIdent 0 core)⟩,
      .other ⟨[docHidden], overflowQueueIdent (priorityTyIdent 0 core)⟩,
      .fn ⟨installFnIdent (priorityTyIdent 0 core), [docHidden], "(task) -> bool"⟩,
      .strct (idleStruct core),
      .impl ⟨some ["RticIdleTask"], some [idleExecutorIdent core], "exec"⟩]

/-- The value of `RTIC_ASYNC_MAX_LOGICAL_PRIO`; priorities are `u16`. -/
def asyncPrioLimit (analysis : List SubAnalysis) : Nat :=
  match (analysis.flatMap fun a => a.tasksPriorityMap.keys).max? with
  | some priority => min (min (priority + 1) (2 ^ 16 - 1)) (2 ^ 8 - 1)
  | none => 2 ^ 8 - 1

namespace CodeGen

/-- The items of a task: its own with the spawn function, the wrapper, the pointer and the wake
function. -/
def generateTask (printer : Printer) (subAnalysis : SubAnalysis) (task : SoftwareTask) :
    Except String (List ModuleItem × ModuleItem × ModuleItem × ModuleItem) := do
  let exec ← execStaticAndWake subAnalysis task
  if task.params.priority ≠ 0 then
    let _ ← unwrap unwrapNone (subAnalysis.dispatcherPriorityMap.get? task.params.priority)
  return (task.items printer, exec)

/-- One round of `generate_subapps`. -/
def generateSubapp (printer : Printer) (pacs : List Path) (subApp : SubApp)
    (subAnalysis : SubAnalysis) : Except String (List ModuleItem) := do
  let _ ← unwrap "index out of bounds" pacs[subApp.core]?
  let tasks ← subApp.tasks.mapM (generateTask printer subAnalysis)
  let dispatchers ← dispatcherTasks subAnalysis
  return tasks.flatMap (·.1) ++ tasks.map (·.2.1) ++ tasks.map (·.2.2.1) ++ tasks.map (·.2.2.2) ++
    dispatchers ++ idleExecutor subAnalysis.prio0Tasks subApp.core

/-- `CodeGen::run`; `pendFns` are the functions that the backend makes of the empty ones, and what
`push_slot_inits` pushes is `pushSlotInits`. -/
def run (printer : Printer) (pacs : List Path) (pendFns : List ItemFn) (app : App)
    (analysis : List SubAnalysis) : Except String (List ModuleItem) := do
  let subApps ← (app.subApps.zip analysis).mapM fun sub => generateSubapp printer pacs sub.1 sub.2
  -- `get_interrupt_path`, for the pend functions
  let _ ← app.subApps.mapM fun sub => unwrap "index out of bounds" pacs[sub.core]?
  return app.restOfCode ++ subApps.flatten ++ [.other ⟨[], "RticAsyncTask"⟩] ++ pendFns.map .fn ++
    [.other ⟨[docHidden], s!"RTIC_ASYNC_MAX_LOGICAL_PRIO: u8 = {asyncPrioLimit analysis}"⟩,
      .other ⟨[⟨["doc"], .nameValue⟩], "__rticx_async_system_initialized"⟩]

end CodeGen

/-! ## What the analysis has found -/

theorem analysed {sub : SubApp} {a : SubAnalysis} (h : SubAnalysis.analyseSubapp sub = .ok a) :
    Analysed sub a := by
  unfold SubAnalysis.analyseSubapp at h
  split at h
  · cases h
  refine analysed_of_analyseGroups h ?_ ?_ ?_
  · intro task htask
    exact (List.mem_filter.mp htask).1
  · intro task htask
    by_cases hpriority : task.params.priority = 0
    · refine Or.inr ⟨hpriority, task.entry fun _ => sub.core, ?_, rfl⟩
      exact List.mem_map_of_mem (List.mem_filter.mpr ⟨htask, by simpa using hpriority⟩)
    · exact Or.inl (List.mem_filter.mpr ⟨htask, by simpa using hpriority⟩)
  · intro entry hentry
    obtain ⟨task, htask, rfl⟩ := List.mem_map.mp hentry
    obtain ⟨htask, hpriority⟩ := List.mem_filter.mp htask
    exact ⟨task, List.mem_append_left _ htask, by simpa using hpriority, rfl⟩

/-- The tasks of priority 0 are all with the idle executor. -/
theorem exists_prio0Tasks {sub : SubApp} {a : SubAnalysis}
    (h : SubAnalysis.analyseSubapp sub = .ok a) {task : SoftwareTask} (htask : task ∈ sub.tasks)
    (hpriority : task.params.priority = 0) : ∃ entry ∈ a.prio0Tasks, entry.name = task.name := by
  unfold SubAnalysis.analyseSubapp at h
  split at h
  · cases h
  rename_i hfind
  obtain ⟨-, -, -, hprio0, -⟩ := analyseGroups_iff.mp h
  rcases List.mem_append.mp htask with htask | htask
  · refine ⟨task.entry fun _ => sub.core, ?_, rfl⟩
    rw [hprio0]
    exact List.mem_map_of_mem (List.mem_filter.mpr ⟨htask, by simpa using hpriority⟩)
  · have hne := List.find?_eq_none.mp hfind task htask
    exact absurd hpriority (by simpa using hne)

/-! ## Code generation -/

/-- The dispatcher of a task that the idle executor does not poll. -/
theorem exists_dispatcher {sub : SubApp} {a : SubAnalysis} (h : Analysed sub a)
    {task : SoftwareTask} (htask : task ∈ sub.tasks) (hpriority : task.params.priority ≠ 0) :
    ∃ irq, a.dispatcherPriorityMap.get? task.params.priority = some irq := by
  obtain ⟨group, hgroup, hkey, -⟩ | ⟨hzero, -⟩ := h.grouped task htask
  · obtain ⟨irq, -, hirq⟩ := h.dispatcher group.1 (List.mem_map_of_mem hgroup)
    exact ⟨irq, hkey ▸ hirq⟩
  · exact absurd hzero hpriority

/-- **Timers preempt async tasks**, as long as a `u8` holds the priority above. -/
theorem lt_asyncPrioLimit {app : App} {analysis : List SubAnalysis}
    (h : List.Forall₂ Analysed app.subApps analysis) {task : SoftwareTask}
    (htask : task ∈ app.tasks) (hlt : task.params.priority < 2 ^ 8 - 1) :
    task.params.priority < asyncPrioLimit analysis := by
  obtain ⟨sub, hsub, htask⟩ := List.mem_flatMap.mp htask
  obtain ⟨a, ha, hzip⟩ := mem_zip_of_length_le h.length_eq.le hsub
  have hsubAnalysed := (List.forall₂_iff_zip.mp h).2 hzip
  unfold asyncPrioLimit
  split
  · rename_i highest hmax
    obtain ⟨group, hgroup, hkey, -⟩ | ⟨hzero, -⟩ := hsubAnalysed.grouped task htask
    · have hmem : task.params.priority ∈ analysis.flatMap fun a => a.tasksPriorityMap.keys :=
        List.mem_flatMap.mpr ⟨a, ha, hkey ▸ List.mem_map_of_mem hgroup⟩
      have hle := (List.max?_eq_some_iff.mp hmax).2 _ hmem
      omega
    · omega
  · exact hlt

namespace CodeGen

variable {printer : Printer} {pacs : List Path} {pendFns : List ItemFn} {appParams : AppParameters}
  {items : List ModuleItem} {app : App} {analysis : List SubAnalysis}

theorem generateTask_ok {sub : SubApp} {a : SubAnalysis} (h : Analysed sub a)
    {task : SoftwareTask} (htask : task ∈ sub.tasks) :
    ∃ exec, generateTask printer a task = .ok (task.items printer, exec) := by
  unfold generateTask execStaticAndWake
  by_cases hpriority : task.params.priority = 0
  · simp [hpriority, pure, Except.pure, bind, Except.bind]
  · obtain ⟨irq, hirq⟩ := exists_dispatcher h htask hpriority
    simp [hpriority, hirq, unwrap, pure, Except.pure, bind, Except.bind]

theorem generateSubapp_ok {sub : SubApp} {a : SubAnalysis} (hcore : sub.core < pacs.length)
    (h : Analysed sub a) : ∃ items, generateSubapp printer pacs sub a = .ok items := by
  have hpac : unwrap "index out of bounds" pacs[sub.core]? = .ok pacs[sub.core] := by
    simp [unwrap, hcore]
  obtain ⟨tasks, htasks⟩ : ∃ tasks, sub.tasks.mapM (generateTask printer a) = .ok tasks := by
    refine mapM_ok_iff.mpr fun task htask => ?_
    obtain ⟨exec, hexec⟩ := generateTask_ok h htask
    exact ⟨_, hexec⟩
  obtain ⟨dispatchers, hdispatchers⟩ : ∃ items, dispatcherTasks a = .ok items :=
    dispatcherTasksOf_ok h
  unfold generateSubapp
  rw [hpac, htasks, hdispatchers]
  exact ⟨_, rfl⟩

/-- **Code generation does not panic** on what parsing and analysis have accepted. -/
theorem run_ok {hasCoreId : Bool} (h : runPass hasCoreId appParams items = .ok (app, analysis))
    (hpacs : pacs.length = appParams.cores) :
    ∃ out, run printer pacs pendFns app analysis = .ok out := by
  obtain ⟨hparse, hanalysis⟩ := runPass_ok h
  have hcore : ∀ sub ∈ app.subApps, sub.core < pacs.length :=
    fun sub hsub => hpacs ▸ core_lt hparse hsub
  have hround : ∀ x ∈ app.subApps.zip analysis, ∃ items,
      generateSubapp printer pacs x.1 x.2 = .ok items := by
    rintro ⟨sub, a⟩ hx
    have ha := (List.forall₂_iff_zip.mp (mapM_forall₂ hanalysis)).2 hx
    exact generateSubapp_ok (hcore sub (List.of_mem_zip hx).1) (analysed ha)
  obtain ⟨subApps, hsubApps⟩ := mapM_ok_iff.mpr hround
  have hpend : ∀ sub ∈ app.subApps, ∃ pac,
      unwrap "index out of bounds" pacs[sub.core]? = .ok pac := by
    intro sub hsub
    exact ⟨pacs.get ⟨sub.core, hcore sub hsub⟩, by simp [unwrap, hcore sub hsub]⟩
  obtain ⟨paths, hpaths⟩ := mapM_ok_iff.mpr hpend
  exact ⟨_, bind_eq_ok.mpr ⟨subApps, hsubApps, bind_eq_ok.mpr ⟨paths, hpaths, rfl⟩⟩⟩

theorem generateTask_items {a : SubAnalysis} {task : SoftwareTask}
    {out : List ModuleItem × ModuleItem × ModuleItem × ModuleItem}
    (h : generateTask printer a task = .ok out) : out.1 = task.items printer := by
  obtain ⟨exec, -, h⟩ := bind_eq_ok.mp h
  split at h
  · obtain ⟨_, -, h⟩ := bind_eq_ok.mp h
    cases h
    rfl
  · cases h
    rfl

theorem subHandedOn {sub : SubApp} {a : SubAnalysis} {out : List ModuleItem}
    (h : generateSubapp printer pacs sub a = .ok out) : SubHandedOn printer sub a out ∧
      (a.prio0Tasks ≠ [] → .strct (idleStruct sub.core) ∈ out) := by
  obtain ⟨_, -, h⟩ := bind_eq_ok.mp h
  obtain ⟨tasks, htasks, h⟩ := bind_eq_ok.mp h
  obtain ⟨dispatchers, hdispatchers, h⟩ := bind_eq_ok.mp h
  cases h
  refine ⟨⟨?_, ?_⟩, ?_⟩
  · intro task htask
    obtain ⟨out, hout, hround⟩ := exists_of_mapM_ok htasks task htask
    have hmem : .strct (task.handOn printer) ∈ tasks.flatMap (·.1) := by
      refine List.mem_flatMap.mpr ⟨out, hout, ?_⟩
      rw [generateTask_items hround]
      simp [SoftwareTask.items]
    simp [hmem]
  · intro group hgroup
    obtain ⟨irq, hirq, hmem⟩ :=
      mem_dispatcherTasksOf hdispatchers (by simp [dispatcherItems]) hgroup
    exact ⟨irq, hirq, by simp [hmem]⟩
  · intro hne
    have hmem : .strct (idleStruct sub.core) ∈ idleExecutor a.prio0Tasks sub.core := by
      simp [idleExecutor, hne]
    simp [hmem]

theorem handedOn {hasCoreId : Bool} (h : runPass hasCoreId appParams items = .ok (app, analysis))
    {out : List ModuleItem} (hrun : run printer pacs pendFns app analysis = .ok out) :
    HandedOn printer app analysis out ∧ ∀ x ∈ app.subApps.zip analysis, x.2.prio0Tasks ≠ [] →
      .strct (idleStruct x.1.core) ∈ out := by
  obtain ⟨hparse, hanalysis⟩ := runPass_ok h
  obtain ⟨subApps, hsubApps, hrun⟩ := bind_eq_ok.mp hrun
  obtain ⟨_, -, hrun⟩ := bind_eq_ok.mp hrun
  cases hrun
  constructor
  · refine handedOn_of_mapM (mapM_forall₂ hanalysis).length_eq hsubApps (fun h => (subHandedOn h).1) ?_
    intro item hitem
    simp [hitem]
  · intro x hx hne
    obtain ⟨items, hitems, hround⟩ := exists_of_mapM_ok hsubApps x hx
    have hmem : .strct (idleStruct x.1.core) ∈ subApps.flatten :=
      List.mem_flatten.mpr ⟨items, hitems, (subHandedOn hround).2 hne⟩
    simp [hmem]

end CodeGen

end Rticx.AsyncPass
