import Rticx.CortexM.BasepriStack
import Rticx.SwPass.Reading

/-!
# The passes wired up

A `Program` leaves open which tasks a dispatcher executes. Here it is filled in with what the
software pass has made of an app and the core pass has read: the interrupt that a spawn pends is
bound to the dispatcher whose ready queue the spawn has filled, this dispatcher executes the task,
and what `Program` asks of the priorities holds.
-/

namespace Rticx.CortexM

open Rticx.Core Rticx.Lib Rticx.Lib.Except
open SwPass (SoftwareTask Consumer ConsumerKind ReadAs dispatcherArgs dispatcherIdent)

/-! ## Consumers and the tasks of the core pass -/

/-- The core pass has read the tasks of this core, and the dispatchers of their groups. -/
structure Wired (tasks : List SoftwareTask) (consumers : List Consumer) (sub : SubApp) : Prop where
  task : ∀ task ∈ tasks, task.params.core = sub.core →
    ∃ targs, ReadAs task targs ∧ ⟨targs, task.name⟩ ∈ sub.tasks
  dispatcher : ∀ k ∈ consumers, k.core = sub.core → k.kind ≠ .idle →
    ∃ irq, ⟨dispatcherArgs irq k.priority k.core, dispatcherIdent k.priority k.core⟩ ∈ sub.tasks
  arm : ∀ k ∈ consumers, k.core = sub.core → ∀ arm ∈ k.arms,
    ∃ task ∈ tasks, task.params.core = sub.core ∧ task.params.priority = k.priority ∧
      task.name = arm.task

/-- The tasks of the arms of a consumer. -/
def armTasks (sub : SubApp) (k : Consumer) : List RticTask :=
  k.arms.flatMap fun arm => sub.tasks.filter (·.name = arm.task)

/-- The consumers whose dispatcher this task is. -/
def dispatches (consumers : List Consumer) (sub : SubApp) (t : RticTask) : List Consumer :=
  consumers.filter fun k =>
    k.core = sub.core ∧ k.kind ≠ .idle ∧ dispatcherIdent k.priority k.core = t.name

def dispatchedTasks (consumers : List Consumer) (sub : SubApp) (t : RticTask) : List RticTask :=
  if t ∈ sub.tasks then (dispatches consumers sub t).flatMap (armTasks sub) else []

def polledTasks (consumers : List Consumer) (sub : SubApp) : List RticTask :=
  (consumers.filter fun k => k.core = sub.core ∧ k.kind = .idle).flatMap (armTasks sub)

section

variable {tasks : List SoftwareTask} {consumers : List Consumer} {sub : SubApp} {t u : RticTask}
  {k : Consumer}

theorem mem_armTasks : u ∈ armTasks sub k ↔ u ∈ sub.tasks ∧ ∃ arm ∈ k.arms, arm.task = u.name := by
  simp only [armTasks, List.mem_flatMap, List.mem_filter, decide_eq_true_eq]
  constructor
  · rintro ⟨arm, harm, hu, hname⟩
    exact ⟨hu, arm, harm, hname.symm⟩
  · rintro ⟨hu, arm, harm, hname⟩
    exact ⟨arm, harm, hu, hname.symm⟩

theorem mem_dispatchedTasks : u ∈ dispatchedTasks consumers sub t ↔ t ∈ sub.tasks ∧
    ∃ k ∈ consumers, k.core = sub.core ∧ k.kind ≠ .idle ∧
      dispatcherIdent k.priority k.core = t.name ∧ u ∈ armTasks sub k := by
  unfold dispatchedTasks dispatches
  split
  · rename_i ht
    simp [ht, and_assoc]
  · rename_i ht
    simp [ht]

theorem eq_of_name (hnames : (sub.tasks.map (·.name)).Nodup) (ht : t ∈ sub.tasks)
    (hu : u ∈ sub.tasks) (hname : t.name = u.name) : t = u :=
  List.inj_on_of_nodup_map hnames ht hu hname

/-- A task that an arm names is read as it was written. -/
theorem Wired.readAs (h : Wired tasks consumers sub) (hnames : (sub.tasks.map (·.name)).Nodup)
    (hk : k ∈ consumers) (hcore : k.core = sub.core) (hu : u ∈ armTasks sub k) :
    ∃ task ∈ tasks, task.name = u.name ∧ task.params.core = sub.core ∧
      task.params.priority = k.priority ∧ ReadAs task u.args := by
  obtain ⟨hu, arm, harm, hname⟩ := mem_armTasks.mp hu
  obtain ⟨task, htask, htaskCore, hpriority, htaskName⟩ := h.arm k hk hcore arm harm
  obtain ⟨targs, hread, hmem⟩ := h.task task htask htaskCore
  have heq : (⟨targs, task.name⟩ : RticTask) = u :=
    eq_of_name hnames hmem hu (htaskName.trans hname)
  subst heq
  exact ⟨task, htask, rfl, htaskCore, hpriority, hread⟩

/-- A dispatcher has the priority of its group. -/
theorem Wired.dispatcher_args (h : Wired tasks consumers sub)
    (hnames : (sub.tasks.map (·.name)).Nodup) (hk : k ∈ consumers) (hcore : k.core = sub.core)
    (hkind : k.kind ≠ .idle) (ht : t ∈ sub.tasks)
    (hname : dispatcherIdent k.priority k.core = t.name) :
    ∃ irq, t.args = dispatcherArgs irq k.priority k.core := by
  obtain ⟨irq, hmem⟩ := h.dispatcher k hk hcore hkind
  exact ⟨irq, congrArg RticTask.args (eq_of_name hnames hmem ht hname).symm⟩

/-- **The program of a core**: its dispatchers execute the tasks of their groups, and idle the
group that has no dispatcher. -/
def Program.ofConsumers (h : Wired tasks consumers sub) (hnames : (sub.tasks.map (·.name)).Nodup)
    (hbinds : (sub.tasks.filterMap (·.args.binds)).Nodup) : Program where
  sub := sub
  dispatched := dispatchedTasks consumers sub
  polled := polledTasks consumers sub
  dispatched_mem := by
    intro t u hu
    obtain ⟨-, k, -, -, -, -, hu⟩ := mem_dispatchedTasks.mp hu
    exact (mem_armTasks.mp hu).1
  dispatched_priority := by
    intro t u hu
    obtain ⟨ht, k, hk, hcore, hkind, hname, hu⟩ := mem_dispatchedTasks.mp hu
    obtain ⟨irq, hargs⟩ := h.dispatcher_args hnames hk hcore hkind ht hname
    obtain ⟨task, -, -, -, hpriority, hread⟩ := h.readAs hnames hk hcore hu
    have ht : t.args.priority = k.priority := by
      rw [hargs]
      rfl
    rw [ht, ← hpriority]
    exact hread.priority
  polled_mem := by
    intro u hu
    obtain ⟨k, -, hu⟩ := List.mem_flatMap.mp hu
    exact (mem_armTasks.mp hu).1
  binds_nodup := hbinds

end

/-- A task that is bound is the handler of its interrupt. -/
theorem Program.handler_of_mem {P : Program} {irq : Ident} {t : RticTask} (ht : t ∈ P.sub.tasks)
    (hbinds : t.args.binds = some irq) : P.handler irq = some t := by
  have hsome : (P.handler irq).isSome = true :=
    List.find?_isSome.mpr ⟨t, ht, decide_eq_true hbinds⟩
  obtain ⟨u, hu⟩ := Option.isSome_iff_exists.mp hsome
  obtain ⟨hmem, hubinds⟩ := handler_eq_some hu
  have hpairwise := List.pairwise_filterMap.mp P.binds_nodup
  have hsymm : Std.Symm fun t u : RticTask =>
      ∀ b, t.args.binds = some b → ∀ b', u.args.binds = some b' → b ≠ b' :=
    ⟨fun _ _ h b hb b' hb' => (h b' hb' b hb).symm⟩
  by_contra hne
  have htu : t ≠ u := fun heq => hne (heq ▸ hu)
  exact hpairwise.forall ht hmem htu irq hbinds irq hubinds rfl

/-! ## What a pass hands on is wired -/

/-- The consumers that were made of the groups of an analysis. -/
def OfGroups (analysis : List SwPass.SubAnalysis) (consumers : List Consumer) : Prop :=
  ∀ k ∈ consumers, ∃ a ∈ analysis,
    (∃ group ∈ a.tasksPriorityMap.entries, ∃ kind ≠ .idle,
      k = .ofGroup kind a.core group.1 group.2) ∨ k = .ofGroup .idle a.core 0 a.prio0Tasks

section

open Source (ModuleItem takeAttr)

variable {pass : SwPass.TaskPass} {appParams : SwPass.AppParameters} {items out : List ModuleItem}
  {app : SwPass.App} {analysis : List SwPass.SubAnalysis} {printer : SwPass.Printer}
  {consumers : List Consumer} {args : AppArgs} {coreApp : Source.App} {app' : App}
  {coreAnalysis : Analysis} {sub : SubApp}

theorem core_of_mem_subApps (hparse : SwPass.App.parseTasks pass appParams items = .ok app)
    {swSub : SwPass.SubApp} (hsub : swSub ∈ app.subApps) :
    ∀ task ∈ swSub.tasks, task.params.core = swSub.core ∧ task ∈ app.tasks := by
  intro task htask
  refine ⟨?_, List.mem_flatMap.mpr ⟨swSub, hsub, htask⟩⟩
  obtain ⟨tasks, hsubs, -⟩ := SwPass.parseTasks_ok hparse
  rw [hsubs] at hsub
  obtain ⟨core, -, rfl⟩ := List.mem_map.mp hsub
  exact (SwPass.SubApp.mem_tasks_ofTasks.mp htask).2

/-- **What the pass hands on, the core pass wires up.** -/
theorem wired_of_handedOn (hparse : SwPass.App.parseTasks pass appParams items = .ok app)
    (hanalysed : List.Forall₂ SwPass.Analysed app.subApps analysis)
    (hhanded : SwPass.HandedOn printer app analysis out) (hconsumers : OfGroups analysis consumers)
    (hcore : Source.App.parse args out = .ok coreApp)
    (hrun : Analysis.run coreApp.erase = .ok (app', coreAnalysis)) (hsub : sub ∈ app'.subApps) :
    Wired app.tasks consumers sub := by
  have hfrom : ∀ a ∈ analysis, ∃ swSub ∈ app.subApps, SwPass.Analysed swSub a := by
    intro a ha
    obtain ⟨swSub, hswSub, hx⟩ :=
      SwPass.mem_zip_of_length_le_left hanalysed.length_eq.ge ha
    exact ⟨swSub, hswSub, (List.forall₂_iff_zip.mp hanalysed).2 hx⟩
  constructor
  · intro task htask htaskCore
    obtain ⟨attr, hparams, htaskAttr⟩ := SwPass.parseTasks_attr hparse task htask
    have htake : takeAttr "task" (task.handOn printer).attrs =
        some (printer.attribute task.taskAttr, task.taskStruct.attrs) := by
      have hname : task.taskAttr.name = "task" := congrArg RticAttr.name htaskAttr
      simp [SoftwareTask.handOn, takeAttr, SwPass.Printer.attribute, hname]
    obtain ⟨targs, htargs, hmem⟩ := mem_tasks_of_run hcore hrun (hhanded.task task htask) htake
    have hread := SwPass.readAs_of_taskArgs hparams htaskAttr htargs
    exact ⟨targs, hread, hmem sub hsub (htaskCore.symm.trans hread.core.symm)⟩
  · intro k hk hkCore hkind
    obtain ⟨a, ha, ⟨group, hgroup, kind, -, rfl⟩ | rfl⟩ := hconsumers k hk
    · obtain ⟨irq, -, hitem⟩ := hhanded.dispatcher a ha group hgroup
      have htake : takeAttr "task" (SwPass.dispatcherStruct irq group.1 a.core).attrs =
          some (SwPass.dispatcherAttribute irq group.1 a.core, [SwPass.docHidden]) := rfl
      obtain ⟨targs, htargs, hmem⟩ := mem_tasks_of_run hcore hrun hitem htake
      obtain ⟨ident, -, rfl⟩ := SwPass.taskArgs_dispatcherAttribute htargs
      exact ⟨ident, hmem sub hsub hkCore.symm⟩
    · exact absurd rfl hkind
  · intro k hk hkCore arm harm
    obtain ⟨a, ha, hgroup⟩ := hconsumers k hk
    obtain ⟨swSub, hswSub, hsubAnalysed⟩ := hfrom a ha
    have htask : ∃ task ∈ swSub.tasks, task.params.priority = k.priority ∧
        task.name = arm.task ∧ a.core = k.core := by
      rcases hgroup with ⟨group, hgroup, kind, -, rfl⟩ | rfl
      · obtain ⟨entry, hentry, rfl⟩ := List.mem_map.mp harm
        obtain ⟨task, htask, hpriority, hname⟩ := hsubAnalysed.group group hgroup entry hentry
        exact ⟨task, htask, hpriority, hname, rfl⟩
      · obtain ⟨entry, hentry, rfl⟩ := List.mem_map.mp harm
        obtain ⟨task, htask, hpriority, hname⟩ := hsubAnalysed.prio0 entry hentry
        exact ⟨task, htask, hpriority, hname, rfl⟩
    obtain ⟨task, htask, hpriority, hname, haCore⟩ := htask
    obtain ⟨htaskCore, hmem⟩ := core_of_mem_subApps hparse hswSub task htask
    refine ⟨task, hmem, ?_, hpriority, hname⟩
    rw [htaskCore, ← hsubAnalysed.core, haCore, hkCore]

/-- **The interrupt that a spawn pends runs the task**: the interrupt that the analysis has assigned
to the priority of the task is bound to a handler of this priority, and the handler executes the
task. -/
theorem exists_handler (hparse : SwPass.App.parseTasks pass appParams items = .ok app)
    (hanalysed : List.Forall₂ SwPass.Analysed app.subApps analysis)
    (hhanded : SwPass.HandedOn printer app analysis out)
    (hcore : Source.App.parse args out = .ok coreApp)
    (hrun : Analysis.run coreApp.erase = .ok (app', coreAnalysis)) (hsub : sub ∈ app'.subApps)
    (hgroups : ∀ a ∈ analysis, ∀ group ∈ a.tasksPriorityMap.entries,
      ∃ kind ≠ .idle, Consumer.ofGroup kind a.core group.1 group.2 ∈ consumers)
    (hwired : Wired app.tasks consumers sub) (hnames : (sub.tasks.map (·.name)).Nodup)
    (hbinds : (sub.tasks.filterMap (·.args.binds)).Nodup) {swSub : SwPass.SubApp}
    {a : SwPass.SubAnalysis} (hzip : (swSub, a) ∈ app.subApps.zip analysis)
    (hcores : swSub.core = sub.core) {task : SoftwareTask} (htask : task ∈ swSub.tasks)
    (hprio0 : task.params.priority = 0 → a.prio0Tasks = []) :
    ∃ irq d u, a.dispatcherPriorityMap.get? task.params.priority = some [irq] ∧
      (Program.ofConsumers hwired hnames hbinds).handler irq = some d ∧
      d.args.priority = task.params.priority ∧ u.name = task.name ∧ ReadAs task u.args ∧
      u ∈ (Program.ofConsumers hwired hnames hbinds).executes (some d) := by
  have hsubAnalysed := (List.forall₂_iff_zip.mp hanalysed).2 hzip
  have ha : a ∈ analysis := (List.of_mem_zip hzip).2
  obtain ⟨htaskCore, hmemApp⟩ := core_of_mem_subApps hparse (List.of_mem_zip hzip).1 task htask
  obtain ⟨group, hgroup, hpriority, entry, hentry, hname⟩ | ⟨hzero, entry, hentry, -⟩ :=
    hsubAnalysed.grouped task htask
  · -- the dispatcher of the group, as the core pass has read it
    obtain ⟨irq, hirq, hitem⟩ := hhanded.dispatcher a ha group hgroup
    have htake : takeAttr "task" (SwPass.dispatcherStruct irq group.1 a.core).attrs =
        some (SwPass.dispatcherAttribute irq group.1 a.core, [SwPass.docHidden]) := rfl
    obtain ⟨targs, htargs, hmem⟩ := mem_tasks_of_run hcore hrun hitem htake
    obtain ⟨ident, rfl, rfl⟩ := SwPass.taskArgs_dispatcherAttribute htargs
    have haCore : a.core = sub.core := hsubAnalysed.core.trans hcores
    have hd := hmem sub hsub haCore.symm
    -- the task, as the core pass has read it
    obtain ⟨targs, hread, hu⟩ := hwired.task task hmemApp (htaskCore.trans hcores)
    refine ⟨ident, ⟨dispatcherArgs ident group.1 a.core, _⟩, ⟨targs, task.name⟩, hpriority ▸ hirq,
      Program.handler_of_mem hd rfl, hpriority, rfl, hread, ?_⟩
    obtain ⟨kind, hkind, hk⟩ := hgroups a ha group hgroup
    refine List.mem_cons_of_mem _ (mem_dispatchedTasks.mpr ⟨hd, _, hk, haCore, hkind, rfl, ?_⟩)
    exact mem_armTasks.mpr ⟨hu, _, List.mem_map_of_mem hentry, hname⟩
  · rw [hprio0 hzero] at hentry
    cases hentry

/-- **The idle executor runs the tasks of its group.** -/
theorem exists_polled (hwired : Wired app.tasks consumers sub)
    (hnames : (sub.tasks.map (·.name)).Nodup) (hbinds : (sub.tasks.filterMap (·.args.binds)).Nodup)
    {tasks : List SwPass.GroupTask}
    (hk : Consumer.ofGroup .idle sub.core 0 tasks ∈ consumers) {task : SoftwareTask}
    (htask : task ∈ app.tasks) (hcore : task.params.core = sub.core) {entry : SwPass.GroupTask}
    (hentry : entry ∈ tasks) (hname : entry.name = task.name) :
    ∃ u, u.name = task.name ∧ ReadAs task u.args ∧
      u ∈ (Program.ofConsumers hwired hnames hbinds).executes none := by
  obtain ⟨targs, hread, hu⟩ := hwired.task task htask hcore
  refine ⟨⟨targs, task.name⟩, rfl, hread, List.mem_append_right _ ?_⟩
  refine List.mem_flatMap.mpr ⟨_, List.mem_filter.mpr ⟨hk, by simp [Consumer.ofGroup]⟩, ?_⟩
  exact mem_armTasks.mpr ⟨hu, _, List.mem_map_of_mem hentry, hname⟩

end

end Rticx.CortexM
