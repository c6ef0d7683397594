import Rticx.SwPass.Codegen

/-!
# The module that the software pass hands on

`CodeGen::run` of `rticx-sw-pass/src/codegen/mod.rs`, by the items of the module that the core pass
reads next. Each task gets the `task` attribute that parsing has made of its own, and each priority
group a dispatcher with one. A static, a function or the body of an `impl` is known by its name
only, since no parser looks into it.

An `unwrap` of the code generation that does not hold is an error here; `CodeGen.run_ok` says that
the analysis leaves none.
-/

namespace Rticx.SwPass

open Rticx.Core Rticx.Core.Source Rticx.Lib Rticx.Lib.Except

/-! ## Items -/

/-- An order in which the arguments of an attribute are printed. -/
structure Printer where
  print : RticAttr → List (Ident × Option Expr)
  print_perm : ∀ attr, (print attr).Perm attr.argsTokens

/-- `RticAttr::to_tokens` -/
def Printer.attribute (printer : Printer) (attr : RticAttr) : Attribute where
  path := [attr.name]
  args := .list (printer.print attr)

/-- `dispatcher_ident` -/
def dispatcherIdent (priority core : Nat) : Ident := s!"Core{core}Priority{priority}Dispatcher"

/-- `Option::unwrap` and `Option::expect` -/
def unwrap {α : Type} (message : String) : Option α → Except String α
  | some a => .ok a
  | none => .error message

def unwrapNone : String := "called `Option::unwrap()` on a `None` value"

/-- The struct of a task under its new attribute. -/
def SoftwareTask.handOn (printer : Printer) (task : SoftwareTask) : ItemStruct :=
  { task.taskStruct with attrs := printer.attribute task.taskAttr :: task.taskStruct.attrs }

/-- The static and the `impl` of `generate_spawn_api`. -/
def SoftwareTask.spawnItems (task : SoftwareTask) : List ModuleItem :=
  [.other ⟨[], swTaskInputsIdent task.name⟩,
    .impl ⟨none, some [task.name], if task.cross then "cross_spawn" else "spawn"⟩]

/-- A task with its implementation and its spawn function. -/
def SoftwareTask.items (printer : Printer) (task : SoftwareTask) : List ModuleItem :=
  .strct (task.handOn printer) :: task.taskImpl.toList.map .impl ++ task.spawnItems

/-- `#[doc(hidden)]` -/
def docHidden : Attribute := ⟨["doc"], .list [("hidden", none)]⟩

/-- `#[task( binds = #dispatcher_irq_name , priority = #dispatcher_priority, core = #core_nbr,
init = generated)]` -/
def dispatcherAttribute (dispatcherIrqName : Path) (priority core : Nat) : Attribute where
  path := ["task"]
  args := .list [("binds", some (.path dispatcherIrqName)), ("priority", some (.int priority)),
    ("core", some (.int core)), ("init", some (.path ["generated"]))]

def dispatcherStruct (dispatcherIrqName : Path) (priority core : Nat) : ItemStruct where
  ident := dispatcherIdent priority core
  attrs := [docHidden, dispatcherAttribute dispatcherIrqName priority core]
  fields := []
  tokens := ";"

/-- The enum, the ready queue and the dispatcher of a priority group. -/
def dispatcherItems (dispatcherIrqName : Path) (priority core : Nat) : List ModuleItem :=
  [.other ⟨[docHidden], priorityTyIdent priority core⟩,
    .other ⟨[docHidden], priorityQueueIdent (priorityTyIdent priority core)⟩,
    .strct (dispatcherStruct dispatcherIrqName priority core),
    .impl ⟨some ["RticTask"], some [dispatcherIdent priority core], "exec"⟩]

/-- The dispatchers of a core, by the items of one. -/
def dispatcherTasksOf (items : Path → Nat → Nat → List ModuleItem) (subAnalysis : SubAnalysis) :
    Except String (List ModuleItem) := do
  let groups ← subAnalysis.tasksPriorityMap.entries.mapM fun group => do
    let dispatcherIrqName ← unwrap unwrapNone (subAnalysis.dispatcherPriorityMap.get? group.1)
    return items dispatcherIrqName group.1 subAnalysis.core
  return groups.flatten

/-- `generate_dispatcher_tasks` -/
def dispatcherTasks (subAnalysis : SubAnalysis) : Except String (List ModuleItem) :=
  dispatcherTasksOf dispatcherItems subAnalysis

namespace CodeGen

/-- One round of `generate_subapps`. -/
def generateSubapp (printer : Printer) (pacs : List Path) (subApp : SubApp)
    (subAnalysis : SubAnalysis) : Except String (List ModuleItem) := do
  let _ ← unwrap "index out of bounds" pacs[subApp.core]?
  let tasks ← subApp.tasks.mapM fun task => do
    let _ ← unwrap "analysis assigns a dispatcher to every priority group"
      (subAnalysis.dispatcherPriorityMap.get? task.params.priority)
    return task.items printer
  return tasks.flatten ++ (← dispatcherTasks subAnalysis)

/-- `CodeGen::run`; `pendFns` are the functions that the backend makes of the empty ones. -/
def run (printer : Printer) (pacs : List Path) (pendFns : List ItemFn) (app : App)
    (analysis : List SubAnalysis) : Except String (List ModuleItem) := do
  let subApps ← (app.subApps.zip analysis).mapM fun sub => generateSubapp printer pacs sub.1 sub.2
  -- `get_interrupt_path`, for the pend functions
  let _ ← app.subApps.mapM fun sub => unwrap "index out of bounds" pacs[sub.core]?
  return app.restOfCode ++ subApps.flatten ++
    [.other ⟨[⟨["doc"], .nameValue⟩], "RticSwTask"⟩] ++ pendFns.map .fn ++
    [.other ⟨[⟨["doc"], .nameValue⟩], "__rticx_sw_system_initialized"⟩]

end CodeGen

/-! ## What the analysis has found -/

/-- Groups and dispatchers of a core, as code generation needs them. -/
structure Analysed (subApp : SubApp) (subAnalysis : SubAnalysis) : Prop where
  core : subAnalysis.core = subApp.core
  dispatcher : ∀ priority ∈ subAnalysis.tasksPriorityMap.keys,
    ∃ irq ∈ subApp.dispatchers, subAnalysis.dispatcherPriorityMap.get? priority = some irq
  group : ∀ group ∈ subAnalysis.tasksPriorityMap.entries, ∀ entry ∈ group.2,
    ∃ task ∈ subApp.tasks, task.params.priority = group.1 ∧ task.name = entry.name
  prio0 : ∀ entry ∈ subAnalysis.prio0Tasks,
    ∃ task ∈ subApp.tasks, task.params.priority = 0 ∧ task.name = entry.name
  grouped : ∀ task ∈ subApp.tasks,
    (∃ group ∈ subAnalysis.tasksPriorityMap.entries, group.1 = task.params.priority ∧
      ∃ entry ∈ group.2, entry.name = task.name) ∨
    (task.params.priority = 0 ∧ ∃ entry ∈ subAnalysis.prio0Tasks, entry.name = task.name)

theorem mem_zip_of_length_le {α β : Type*} {as : List α} {bs : List β} (h : as.length ≤ bs.length)
    {a : α} (ha : a ∈ as) : ∃ b ∈ bs, (a, b) ∈ as.zip bs := by
  rw [← List.map_fst_zip h] at ha
  obtain ⟨⟨a, b⟩, hab, rfl⟩ := List.mem_map.mp ha
  exact ⟨b, (List.of_mem_zip hab).2, hab⟩

theorem mem_zip_of_length_le_left {α β : Type*} {as : List α} {bs : List β}
    (h : bs.length ≤ as.length) {b : β} (hb : b ∈ bs) : ∃ a ∈ as, (a, b) ∈ as.zip bs := by
  rw [← List.map_snd_zip h] at hb
  obtain ⟨⟨a, b⟩, hab, rfl⟩ := List.mem_map.mp hb
  exact ⟨a, (List.of_mem_zip hab).1, hab⟩

/-- A task is in the group of its priority. -/
theorem exists_entry_groupByPriority {tasks : List SoftwareTask} {spawnerCore : SoftwareTask → Nat}
    {task : SoftwareTask} (h : task ∈ tasks) :
    ∃ group, (groupByPriority tasks spawnerCore).get? task.params.priority = some group ∧
      ∃ entry ∈ group, entry.name = task.name := by
  obtain ⟨group, hgroup⟩ := SortedMap.mem_keys.mp
    ((@mem_keys_groupByPriority tasks spawnerCore _).mpr ⟨task, h, rfl⟩)
  have hentries : group = _ := (mem_groupByPriority (SortedMap.get?_eq_some.mp hgroup)).1
  refine ⟨group, hgroup, task.entry spawnerCore, ?_, rfl⟩
  rw [hentries]
  exact List.mem_map_of_mem (List.mem_filter.mpr ⟨h, by simp⟩)

/-- **What the checks of a core leave is what code generation needs.** -/
theorem analysed_of_analyseGroups {sub : SubApp} {swTasks : List SoftwareTask}
    {prio0Tasks : List GroupTask} {a : SubAnalysis}
    (h : analyseGroups sub (groupByPriority swTasks fun _ => sub.core)
      (groupByPriority sub.mcSwTasks fun task => task.params.spawnBy) prio0Tasks = .ok a)
    (hsw : ∀ task ∈ swTasks, task ∈ sub.swTasks)
    (hrest : ∀ task ∈ sub.swTasks, task ∈ swTasks ∨
      (task.params.priority = 0 ∧ ∃ entry ∈ prio0Tasks, entry.name = task.name))
    (hprio0 : ∀ entry ∈ prio0Tasks,
      ∃ task ∈ sub.tasks, task.params.priority = 0 ∧ task.name = entry.name) :
    Analysed sub a := by
  obtain ⟨hdisjoint, -, hcore, hprio0Tasks, hmap, hlength, hassigned⟩ := analyseGroups_iff.mp h
  constructor
  · exact hcore
  · intro priority hpriority
    obtain ⟨irq, hirq, hentry⟩ := mem_zip_of_length_le hlength hpriority
    exact ⟨irq, hirq, SortedMap.get?_eq_some.mpr (hassigned ▸ hentry)⟩
  · intro group hgroup entry hentry
    rw [hmap] at hgroup
    have hfrom : ∃ tasks spawnerCore, (∀ task ∈ tasks, task ∈ sub.tasks) ∧
        group ∈ (groupByPriority tasks spawnerCore).entries := by
      rcases SortedMap.mem_extend hgroup with hgroup | hgroup
      · exact ⟨_, _, fun task => List.mem_append_right _, hgroup⟩
      · exact ⟨_, _, fun task htask => List.mem_append_left _ (hsw task htask), hgroup⟩
    obtain ⟨tasks, spawnerCore, hsub, hgroup⟩ := hfrom
    rw [(mem_groupByPriority hgroup).1] at hentry
    obtain ⟨task, htask, rfl⟩ := List.mem_map.mp hentry
    obtain ⟨htask, hpriority⟩ := List.mem_filter.mp htask
    exact ⟨task, hsub task htask, by simpa using hpriority, rfl⟩
  · rw [hprio0Tasks]
    exact hprio0
  · intro task htask
    have hgrouped : task ∈ swTasks ++ sub.mcSwTasks →
        ∃ group ∈ a.tasksPriorityMap.entries, group.1 = task.params.priority ∧
          ∃ entry ∈ group.2, entry.name = task.name := by
      intro htask
      have hget : ∃ group, a.tasksPriorityMap.get? task.params.priority = some group ∧
          ∃ entry ∈ group, entry.name = task.name := by
        rw [hmap, SortedMap.get?_extend]
        rcases List.mem_append.mp htask with htask | htask
        · -- no cross-core task has the priority of a core-local one
          have hnone : (groupByPriority sub.mcSwTasks fun task => task.params.spawnBy).get?
              task.params.priority = none := by
            rw [get?_groupByPriority, if_pos]
            refine List.filter_eq_nil_iff.mpr ?_
            intro task' htask'
            simpa using (hdisjoint task htask task' htask').symm
          rw [hnone]
          exact exists_entry_groupByPriority htask
        · obtain ⟨group, hgroup, hentry⟩ :=
            @exists_entry_groupByPriority _ (fun task => task.params.spawnBy) _ htask
          rw [hgroup]
          exact ⟨group, rfl, hentry⟩
      obtain ⟨group, hgroup, hentry⟩ := hget
      exact ⟨_, SortedMap.get?_eq_some.mp hgroup, rfl, hentry⟩
    rw [hprio0Tasks]
    rcases List.mem_append.mp htask with htask | htask
    · rcases hrest task htask with htask | hzero
      · exact Or.inl (hgrouped (List.mem_append_left _ htask))
      · exact Or.inr hzero
    · exact Or.inl (hgrouped (List.mem_append_right _ htask))

theorem analysed {sub : SubApp} {a : SubAnalysis} (h : SubAnalysis.analyseSubapp sub = .ok a) :
    Analysed sub a :=
  analysed_of_analyseGroups h (fun _ htask => htask) (fun _ htask => Or.inl htask) (by simp)

/-! ## Code generation -/

theorem unwrap_eq_ok {α : Type} {message : String} {o : Option α} {a : α} :
    unwrap message o = .ok a ↔ o = some a := by
  cases o with
  | none => simp [unwrap]
  | some b => simp [unwrap]

/-- Every group has its dispatcher. -/
theorem dispatcherTasksOf_ok {itemsOf : Path → Nat → Nat → List ModuleItem} {sub : SubApp}
    {a : SubAnalysis} (h : Analysed sub a) : ∃ items, dispatcherTasksOf itemsOf a = .ok items := by
  have hgroups : ∀ group ∈ a.tasksPriorityMap.entries, ∃ items,
      (do
        let dispatcherIrqName ← unwrap unwrapNone (a.dispatcherPriorityMap.get? group.1)
        return itemsOf dispatcherIrqName group.1 a.core : Except String _) = .ok items := by
    intro group hgroup
    obtain ⟨irq, -, hirq⟩ := h.dispatcher group.1 (List.mem_map_of_mem hgroup)
    exact ⟨_, bind_eq_ok.mpr ⟨irq, unwrap_eq_ok.mpr hirq, rfl⟩⟩
  obtain ⟨groups, hgroups⟩ := mapM_ok_iff.mpr hgroups
  exact ⟨groups.flatten, bind_eq_ok.mpr ⟨groups, hgroups, rfl⟩⟩

theorem mem_dispatcherTasksOf {itemsOf : Path → Nat → Nat → List ModuleItem} {a : SubAnalysis}
    {items : List ModuleItem} (h : dispatcherTasksOf itemsOf a = .ok items)
    (hstruct : ∀ irq priority core,
      .strct (dispatcherStruct irq priority core) ∈ itemsOf irq priority core)
    {group : Nat × List GroupTask} (hgroup : group ∈ a.tasksPriorityMap.entries) :
    ∃ irq, a.dispatcherPriorityMap.get? group.1 = some irq ∧
      .strct (dispatcherStruct irq group.1 a.core) ∈ items := by
  obtain ⟨groups, hgroups, h⟩ := bind_eq_ok.mp h
  cases h
  obtain ⟨items, hitems, hround⟩ := exists_of_mapM_ok hgroups group hgroup
  obtain ⟨irq, hirq, hround⟩ := bind_eq_ok.mp hround
  cases hround
  exact ⟨irq, unwrap_eq_ok.mp hirq, List.mem_flatten.mpr ⟨_, hitems, hstruct irq group.1 a.core⟩⟩

/-- The pass has handed on its tasks and dispatchers. -/
structure HandedOn (printer : Printer) (app : App) (analysis : List SubAnalysis)
    (items : List ModuleItem) : Prop where
  task : ∀ task ∈ app.tasks, .strct (task.handOn printer) ∈ items
  dispatcher : ∀ a ∈ analysis, ∀ group ∈ a.tasksPriorityMap.entries,
    ∃ irq, a.dispatcherPriorityMap.get? group.1 = some irq ∧
      .strct (dispatcherStruct irq group.1 a.core) ∈ items

/-- What the code of one core holds. -/
structure SubHandedOn (printer : Printer) (sub : SubApp) (a : SubAnalysis)
    (items : List ModuleItem) : Prop where
  task : ∀ task ∈ sub.tasks, .strct (task.handOn printer) ∈ items
  dispatcher : ∀ group ∈ a.tasksPriorityMap.entries,
    ∃ irq, a.dispatcherPriorityMap.get? group.1 = some irq ∧
      .strct (dispatcherStruct irq group.1 a.core) ∈ items

/-- The module holds the code of every core. -/
theorem handedOn_of_mapM {printer : Printer} {app : App} {analysis : List SubAnalysis}
    {generate : SubApp → SubAnalysis → Except String (List ModuleItem)}
    {subApps : List (List ModuleItem)} {out : List ModuleItem}
    (hlength : app.subApps.length = analysis.length)
    (h : (app.subApps.zip analysis).mapM (fun x => generate x.1 x.2) = .ok subApps)
    (hgenerate : ∀ {sub a items}, generate sub a = .ok items → SubHandedOn printer sub a items)
    (hout : ∀ item ∈ subApps.flatten, item ∈ out) : HandedOn printer app analysis out := by
  have hround : ∀ x ∈ app.subApps.zip analysis,
      ∃ items, SubHandedOn printer x.1 x.2 items ∧ ∀ item ∈ items, item ∈ out := by
    intro x hx
    obtain ⟨items, hitems, hround⟩ := exists_of_mapM_ok h x hx
    refine ⟨items, hgenerate hround, fun item hitem => hout item ?_⟩
    exact List.mem_flatten.mpr ⟨items, hitems, hitem⟩
  constructor
  · intro task htask
    obtain ⟨sub, hsub, htask⟩ := List.mem_flatMap.mp htask
    obtain ⟨a, -, hx⟩ := mem_zip_of_length_le hlength.le hsub
    obtain ⟨items, hitems, hmem⟩ := hround _ hx
    exact hmem _ (hitems.task task htask)
  · intro a ha group hgroup
    obtain ⟨sub, -, hx⟩ := mem_zip_of_length_le_left hlength.ge ha
    obtain ⟨items, hitems, hmem⟩ := hround _ hx
    obtain ⟨irq, hirq, hstruct⟩ := hitems.dispatcher group hgroup
    exact ⟨irq, hirq, hmem _ hstruct⟩

/-- A core of an accepted app. -/
theorem core_lt {pass : TaskPass} {appParams : AppParameters} {items : List ModuleItem} {app : App}
    (h : App.parseTasks pass appParams items = .ok app) {sub : SubApp} (hsub : sub ∈ app.subApps) :
    sub.core < appParams.cores := by
  obtain ⟨tasks, hsubs, -⟩ := parseTasks_ok h
  rw [hsubs] at hsub
  obtain ⟨core, hcore, rfl⟩ := List.mem_map.mp hsub
  exact List.mem_range.mp hcore

namespace CodeGen

variable {printer : Printer} {pacs : List Path} {pendFns : List ItemFn} {appParams : AppParameters}
  {items : List ModuleItem} {app : App} {analysis : List SubAnalysis}

theorem generateSubapp_ok {sub : SubApp} {a : SubAnalysis} (hcore : sub.core < pacs.length)
    (h : Analysed sub a) (hprio0 : a.prio0Tasks = []) :
    ∃ items, generateSubapp printer pacs sub a = .ok items := by
  have htasks : ∀ task ∈ sub.tasks, ∃ items,
      (do
        let _ ← unwrap "analysis assigns a dispatcher to every priority group"
          (a.dispatcherPriorityMap.get? task.params.priority)
        return task.items printer : Except String _) = .ok items := by
    intro task htask
    obtain ⟨group, hgroup, hpriority, -⟩ | ⟨-, entry, hentry, -⟩ := h.grouped task htask
    · obtain ⟨irq, -, hirq⟩ := h.dispatcher group.1 (List.mem_map_of_mem hgroup)
      rw [hpriority] at hirq
      exact ⟨_, bind_eq_ok.mpr ⟨irq, unwrap_eq_ok.mpr hirq, rfl⟩⟩
    · rw [hprio0] at hentry
      cases hentry
  obtain ⟨tasks, htasks⟩ := mapM_ok_iff.mpr htasks
  obtain ⟨dispatchers, hdispatchers⟩ : ∃ items, dispatcherTasks a = .ok items :=
    dispatcherTasksOf_ok h
  refine ⟨tasks.flatten ++ dispatchers, bind_eq_ok.mpr ⟨pacs[sub.core], ?_, ?_⟩⟩
  · simp [unwrap, hcore]
  · exact bind_eq_ok.mpr ⟨tasks, htasks, bind_eq_ok.mpr ⟨dispatchers, hdispatchers, rfl⟩⟩

/-- **Code generation does not panic** on what parsing and analysis have accepted. -/
theorem run_ok {hasCoreId : Bool} (h : runPass hasCoreId appParams items = .ok (app, analysis))
    (hpacs : pacs.length = appParams.cores) :
    ∃ out, run printer pacs pendFns app analysis = .ok out := by
  obtain ⟨parsed, hparse, h⟩ := bind_eq_ok.mp h
  obtain ⟨_, _, h⟩ := bind_eq_ok.mp h
  obtain ⟨analysis', hanalysis, h⟩ := bind_eq_ok.mp h
  cases h
  have hcore : ∀ sub ∈ app.subApps, sub.core < pacs.length :=
    fun sub hsub => hpacs ▸ core_lt hparse hsub
  have hround : ∀ x ∈ app.subApps.zip analysis, ∃ items,
      generateSubapp printer pacs x.1 x.2 = .ok items := by
    rintro ⟨sub, a⟩ hx
    have ha := (List.forall₂_iff_zip.mp (mapM_forall₂ hanalysis)).2 hx
    obtain ⟨-, -, -, hprio0, -⟩ := analyseGroups_iff.mp ha
    exact generateSubapp_ok (hcore sub (List.of_mem_zip hx).1) (analysed ha) hprio0
  obtain ⟨subApps, hsubApps⟩ := mapM_ok_iff.mpr hround
  have hpend : ∀ sub ∈ app.subApps, ∃ pac,
      unwrap "index out of bounds" pacs[sub.core]? = .ok pac := by
    intro sub hsub
    exact ⟨pacs.get ⟨sub.core, hcore sub hsub⟩, by simp [unwrap, hcore sub hsub]⟩
  obtain ⟨paths, hpaths⟩ := mapM_ok_iff.mpr hpend
  exact ⟨_, bind_eq_ok.mpr ⟨subApps, hsubApps, bind_eq_ok.mpr ⟨paths, hpaths, rfl⟩⟩⟩

theorem subHandedOn {sub : SubApp} {a : SubAnalysis} {out : List ModuleItem}
    (h : generateSubapp printer pacs sub a = .ok out) : SubHandedOn printer sub a out := by
  obtain ⟨_, -, h⟩ := bind_eq_ok.mp h
  obtain ⟨tasks, htasks, h⟩ := bind_eq_ok.mp h
  obtain ⟨dispatchers, hdispatchers, h⟩ := bind_eq_ok.mp h
  cases h
  constructor
  · intro task htask
    obtain ⟨items, hitems, hround⟩ := exists_of_mapM_ok htasks task htask
    obtain ⟨_, -, hround⟩ := bind_eq_ok.mp hround
    cases hround
    refine List.mem_append_left _ (List.mem_flatten.mpr ⟨_, hitems, ?_⟩)
    simp [SoftwareTask.items]
  · intro group hgroup
    obtain ⟨irq, hirq, hmem⟩ :=
      mem_dispatcherTasksOf hdispatchers (by simp [dispatcherItems]) hgroup
    exact ⟨irq, hirq, List.mem_append_right _ hmem⟩

theorem handedOn {hasCoreId : Bool} (h : runPass hasCoreId appParams items = .ok (app, analysis))
    {out : List ModuleItem} (hrun : run printer pacs pendFns app analysis = .ok out) :
    HandedOn printer app analysis out := by
  obtain ⟨parsed, hparse, h⟩ := bind_eq_ok.mp h
  obtain ⟨_, _, h⟩ := bind_eq_ok.mp h
  obtain ⟨analysis', hanalysis, h⟩ := bind_eq_ok.mp h
  cases h
  obtain ⟨subApps, hsubApps, hrun⟩ := bind_eq_ok.mp hrun
  obtain ⟨_, -, hrun⟩ := bind_eq_ok.mp hrun
  cases hrun
  refine handedOn_of_mapM (mapM_forall₂ hanalysis).length_eq hsubApps subHandedOn ?_
  intro item hitem
  simp [hitem]

end CodeGen

end Rticx.SwPass
