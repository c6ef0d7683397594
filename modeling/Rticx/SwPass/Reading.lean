import Rticx.Core.Conservation
import Rticx.Core.Erase
import Rticx.SwPass.Output

/-!
# What the core pass reads off the module

The other side of `Output`: the core pass makes a task of every struct with a `task` attribute, so
it makes one of each task and each dispatcher that was handed on, on the core and with the priority
that the pass has read. Only the priority that a task leaves out is read in two ways.
-/

namespace Rticx.Core.Source

open Rticx.Lib.Except

/-! ## Tasks of the core pass -/

/-- The loop of `construct_rtic_tasks` keeps the tasks it has and adds one for each struct. -/
theorem mem_of_constructRticTasks_loop {items : List Sorted} {taskImpls : List (Ident × ItemImpl)}
    {acc out : List RticTask} (h : (items.foldlM (fun out item => do
      match item with
      | .task strct attr =>
        let args ← taskArgs attr
        return out ++ [⟨args, strct, findImpl taskImpls strct.ident args.taskTrait⟩]
      | _ => return out) acc : Except String _) = .ok out) {strct : ItemStruct} {attr : Attribute} :
    (∀ task ∈ acc, task ∈ out) ∧ (.task strct attr ∈ items → ∃ args, taskArgs attr = .ok args ∧
      ⟨args, strct, findImpl taskImpls strct.ident args.taskTrait⟩ ∈ out) := by
  induction items generalizing acc with
  | nil =>
    cases h
    exact ⟨fun _ htask => htask, by simp⟩
  | cons item items ih =>
    rw [List.foldlM_cons, bind_eq_ok] at h
    obtain ⟨acc', hround, h⟩ := h
    obtain ⟨hacc, hitems⟩ := ih h
    cases item with
    | task strct' attr' =>
      obtain ⟨args, hargs, hround⟩ := bind_eq_ok.mp hround
      cases hround
      refine ⟨fun task htask => hacc task (List.mem_append_left _ htask), fun hmem => ?_⟩
      rcases List.mem_cons.mp hmem with heq | hmem
      · cases heq
        exact ⟨args, hargs, hacc _ (by simp)⟩
      · exact hitems hmem
    | init _ _ | postInit _ _ | shared _ _ | idle _ _ | taskImpl _ _ | userInclude _
    | otherCode _ =>
      cases hround
      refine ⟨hacc, fun hmem => hitems ?_⟩
      simpa using hmem

theorem exists_of_constructRticTasks {items : List Sorted} {taskImpls : List (Ident × ItemImpl)}
    {out : List RticTask} (h : constructRticTasks items taskImpls = .ok out) {strct : ItemStruct}
    {attr : Attribute} (hitem : .task strct attr ∈ items) :
    ∃ args, taskArgs attr = .ok args ∧
      ⟨args, strct, findImpl taskImpls strct.ident args.taskTrait⟩ ∈ out :=
  (mem_of_constructRticTasks_loop h).2 hitem

/-- **Every struct with a `task` attribute is a task of its core.** -/
theorem exists_task_of_parse {args : AppArgs} {items : List ModuleItem} {app : App}
    (h : App.parse args items = .ok app) {strct : ItemStruct} {attr : Attribute}
    {attrs : List Attribute} (hitem : .strct strct ∈ items)
    (hattr : takeAttr "task" strct.attrs = some (attr, attrs)) :
    ∃ targs, taskArgs attr = .ok targs ∧
      ∀ sub ∈ app.subApps, sub.core = targs.core →
        ∃ t ∈ sub.tasks, t.args = targs ∧ t.taskStruct.ident = strct.ident := by
  obtain ⟨_, -, h⟩ := bind_eq_ok.mp h
  obtain ⟨shared, -, h⟩ := bind_eq_ok.mp h
  obtain ⟨inits, -, h⟩ := bind_eq_ok.mp h
  obtain ⟨postInits, -, h⟩ := bind_eq_ok.mp h
  obtain ⟨idles, -, h⟩ := bind_eq_ok.mp h
  obtain ⟨tasks, htasks, h⟩ := bind_eq_ok.mp h
  obtain ⟨subApps, hsubs, h⟩ := bind_eq_ok.mp h
  cases h
  have hsorted : ModuleItem.sort (.strct strct) = .task { strct with attrs := attrs } attr := by
    show sortStruct strct = _
    unfold sortStruct
    rw [hattr]
  have hmem : Sorted.task { strct with attrs := attrs } attr ∈ items.map ModuleItem.sort := by
    rw [← hsorted]
    exact List.mem_map_of_mem hitem
  obtain ⟨targs, htargs, hmem⟩ := exists_of_constructRticTasks htasks hmem
  refine ⟨targs, htargs, ?_⟩
  intro sub hsub hcore
  obtain ⟨core, -, hround⟩ := mapM_ok hsubs sub hsub
  split at hround
  · cases hround
    refine ⟨_, List.mem_filter.mpr ⟨hmem, ?_⟩, rfl, rfl⟩
    simpa using hcore.symm
  · cases hround

/-- **A struct with an `idle` attribute is the idle task of its core.** -/
theorem exists_idle_of_parse {args : AppArgs} {items : List ModuleItem} {app : App}
    (h : App.parse args items = .ok app) {strct strct' : ItemStruct} {attr : Attribute}
    (hitem : .strct strct ∈ items) (hsort : sortStruct strct = .idle strct' attr) :
    ∃ targs, taskArgs attr = .ok targs ∧ ∀ sub ∈ app.subApps, sub.core = targs.core →
      ∃ t, sub.idle = some t ∧ t.taskStruct.ident = strct'.ident := by
  obtain ⟨_, -, h⟩ := bind_eq_ok.mp h
  obtain ⟨shared, -, h⟩ := bind_eq_ok.mp h
  obtain ⟨inits, -, h⟩ := bind_eq_ok.mp h
  obtain ⟨postInits, -, h⟩ := bind_eq_ok.mp h
  obtain ⟨idles, hidles, h⟩ := bind_eq_ok.mp h
  obtain ⟨tasks, -, h⟩ := bind_eq_ok.mp h
  obtain ⟨subApps, hsubs, h⟩ := bind_eq_ok.mp h
  cases h
  have hmem : Sorted.idle strct' attr ∈ items.map ModuleItem.sort := by
    rw [← hsort]
    exact List.mem_map_of_mem hitem
  obtain ⟨out, out', hround⟩ := exists_of_foldlM_ok hidles _ hmem
  obtain ⟨targs, htargs, -⟩ := bind_eq_ok.mp hround
  obtain ⟨hheaders, hcores⟩ := constructIdleTasks_eq hidles
  have hheader : (targs.core, strct', idleTraitTy) ∈ idles.map RticTask.header := by
    rw [hheaders]
    exact List.mem_flatMap.mpr ⟨_, hmem, by simp [Sorted.idle?, htargs, Except.toOption]⟩
  obtain ⟨t, ht, hheader⟩ := List.mem_map.mp hheader
  obtain ⟨hcore, hstrct⟩ : t.args.core = targs.core ∧ t.taskStruct = strct' := by
    rw [RticTask.header, Prod.mk.injEq, Prod.mk.injEq] at hheader
    exact ⟨hheader.1, hheader.2.1⟩
  refine ⟨targs, htargs, ?_⟩
  intro sub hsub hsubCore
  obtain ⟨core, -, hround⟩ := mapM_ok hsubs sub hsub
  split at hround
  · cases hround
    refine ⟨t, ?_, congrArg ItemStruct.ident hstrct⟩
    -- a core has one idle task
    have hsome : (lookup (·.args.core) idles core).isSome = true := by
      unfold lookup
      exact List.find?_isSome.mpr ⟨t, ht, by simpa using hcore.trans hsubCore.symm⟩
    obtain ⟨u, hu⟩ := Option.isSome_iff_exists.mp hsome
    have hucore : u.args.core = core := by simpa using List.find?_some hu
    have hut : u = t := List.inj_on_of_nodup_map hcores (List.mem_of_find?_eq_some hu) ht
      (hucore.trans (hsubCore.trans hcore.symm))
    exact hut ▸ hu
  · cases hround

end Rticx.Core.Source

namespace Rticx.Core

open Rticx.Lib.Except

/-- The analysis leaves the tasks as they were parsed. -/
theorem Analysis.run_tasks {app app' : App} {analysis : Analysis}
    (hrun : Analysis.run app = .ok (app', analysis)) {sub : SubApp} (hsub : sub ∈ app'.subApps) :
    ∃ sub₀ ∈ app.subApps, sub₀.core = sub.core ∧ sub₀.tasks = sub.tasks ∧ sub₀.idle = sub.idle := by
  unfold Analysis.run at hrun
  obtain ⟨subApps, hsubs, hrun⟩ := bind_eq_ok.mp hrun
  cases hrun
  obtain ⟨sub₀, hsub₀, hupdate⟩ := mapM_ok hsubs sub hsub
  obtain ⟨shared', -, hupdate⟩ := bind_eq_ok.mp hupdate
  cases hupdate
  exact ⟨sub₀, hsub₀, rfl, rfl, rfl⟩

/-- What parsing and analysis make of a struct with a `task` attribute. -/
theorem mem_tasks_of_run {args : AppArgs} {items : List Source.ModuleItem} {app : Source.App}
    {app' : App} {analysis : Analysis} (hparse : Source.App.parse args items = .ok app)
    (hrun : Analysis.run app.erase = .ok (app', analysis)) {strct : Source.ItemStruct}
    {attr : Source.Attribute} {attrs : List Source.Attribute} (hitem : .strct strct ∈ items)
    (hattr : Source.takeAttr "task" strct.attrs = some (attr, attrs)) :
    ∃ targs, Source.taskArgs attr = .ok targs ∧
      ∀ sub ∈ app'.subApps, sub.core = targs.core → ⟨targs, strct.ident⟩ ∈ sub.tasks := by
  obtain ⟨targs, htargs, hmem⟩ := Source.exists_task_of_parse hparse hitem hattr
  refine ⟨targs, htargs, ?_⟩
  intro sub hsub hcore
  obtain ⟨sub₀, hsub₀, hcore₀, htasks, -⟩ := Analysis.run_tasks hrun hsub
  obtain ⟨sub₁, hsub₁, rfl⟩ := List.mem_map.mp hsub₀
  obtain ⟨t, ht, rfl, hident⟩ := hmem sub₁ hsub₁ (hcore₀.trans hcore)
  rw [← htasks, ← hident]
  exact List.mem_map_of_mem ht

theorem idle_of_run {args : AppArgs} {items : List Source.ModuleItem} {app : Source.App}
    {app' : App} {analysis : Analysis} (hparse : Source.App.parse args items = .ok app)
    (hrun : Analysis.run app.erase = .ok (app', analysis)) {strct strct' : Source.ItemStruct}
    {attr : Source.Attribute} (hitem : .strct strct ∈ items)
    (hsort : Source.sortStruct strct = .idle strct' attr) :
    ∃ targs, Source.taskArgs attr = .ok targs ∧ ∀ sub ∈ app'.subApps, sub.core = targs.core →
      ∃ t, sub.idle = some t ∧ t.name = strct'.ident := by
  obtain ⟨targs, htargs, hidle⟩ := Source.exists_idle_of_parse hparse hitem hsort
  refine ⟨targs, htargs, ?_⟩
  intro sub hsub hcore
  obtain ⟨sub₀, hsub₀, hcore₀, -, hidle₀⟩ := Analysis.run_tasks hrun hsub
  obtain ⟨sub₁, hsub₁, rfl⟩ := List.mem_map.mp hsub₀
  obtain ⟨t, ht, hident⟩ := hidle sub₁ hsub₁ (hcore₀.trans hcore)
  refine ⟨t.erase, ?_, hident⟩
  rw [← hidle₀]
  exact congrArg (Option.map Source.RticTask.erase) ht

end Rticx.Core

namespace Rticx.SwPass

open Rticx.Core Rticx.Core.Source Rticx.Lib Rticx.Lib.Except

/-! ## The attributes that are handed on -/

theorem parseTask_attr {pass : TaskPass} {cores : Nat} {impls impls' : List (Ident × ItemImpl)}
    {strct : ItemStruct} {attr : Attribute} {task : SoftwareTask}
    (h : parseTask pass cores impls strct attr = .ok (task, impls')) :
    ∃ attr, TaskParams.fromAttr attr = .ok task.params ∧
      task.taskAttr = intoTaskAttr attr pass.traitTy := by
  obtain ⟨_, _, h⟩ := bind_eq_ok.mp h
  obtain ⟨rticAttr, _, h⟩ := bind_eq_ok.mp h
  obtain ⟨params, hparams, h⟩ := bind_eq_ok.mp h
  split at h
  · cases h
  · split at h
    · cases h
    · cases h
      exact ⟨rticAttr, hparams, rfl⟩

theorem parseTasks_attr {pass : TaskPass} {appParams : AppParameters} {items : List ModuleItem}
    {app : App} (h : App.parseTasks pass appParams items = .ok app) :
    ∀ task ∈ app.tasks, ∃ attr, TaskParams.fromAttr attr = .ok task.params ∧
      task.taskAttr = intoTaskAttr attr pass.traitTy := by
  obtain ⟨sorted, hsorted, h⟩ := bind_eq_ok.mp h
  obtain ⟨⟨tasks, impls⟩, hloop, h⟩ := bind_eq_ok.mp h
  cases h
  have htasks := foldlM_ok (P := fun acc : List SoftwareTask × List (Ident × ItemImpl) =>
    ∀ task ∈ acc.1, ∃ attr, TaskParams.fromAttr attr = .ok task.params ∧
      task.taskAttr = intoTaskAttr attr pass.traitTy) ?_ (by simp) hloop
  · intro task htask
    obtain ⟨sub, hsub, htask⟩ := List.mem_flatMap.mp htask
    obtain ⟨core, -, rfl⟩ := List.mem_map.mp hsub
    exact htasks task (SubApp.mem_tasks_ofTasks.mp htask).1
  · intro acc entry acc' _ hacc hstep task htask
    obtain ⟨⟨task', impls⟩, hparse, hstep⟩ := bind_eq_ok.mp hstep
    cases hstep
    rcases List.mem_append.mp htask with htask | htask
    · exact hacc task htask
    · rw [List.mem_singleton.mp htask]
      exact parseTask_attr hparse

/-- What the core pass takes a task for. Where no priority is written, the two passes have different
defaults. -/
structure ReadAs (task : SoftwareTask) (targs : TaskArgs) : Prop where
  core : targs.core = task.params.core
  written : ∀ n, task.taskAttr.intValue "priority" = some n →
    task.params.priority = n ∧ targs.priority = n
  absent : task.taskAttr.intValue "priority" = none →
    task.params.priority = 0 ∧ targs.priority = defaultTaskPriority

theorem ReadAs.priority {task : SoftwareTask} {targs : TaskArgs} (h : ReadAs task targs) :
    targs.priority = task.params.priority ∨
      task.params.priority = 0 ∧ targs.priority = defaultTaskPriority := by
  cases hvalue : task.taskAttr.intValue "priority" with
  | none => exact .inr (h.absent hvalue)
  | some n =>
    obtain ⟨hparams, htargs⟩ := h.written n hvalue
    exact .inl (htargs.trans hparams.symm)

/-- **The core pass reads the core and the priority of a task**, or the default of its own. -/
theorem readAs_of_taskArgs {printer : Printer} {attr : RticAttr} {traitIdent : Ident}
    {task : SoftwareTask} {targs : TaskArgs} (hparams : TaskParams.fromAttr attr = .ok task.params)
    (hattr : task.taskAttr = intoTaskAttr attr traitIdent)
    (h : taskArgs (printer.attribute task.taskAttr) = .ok targs) : ReadAs task targs := by
  rw [hattr] at h
  have hargs : TaskArgs.fromAttr (RticAttr.parseFromTokens
      (printer.print (intoTaskAttr attr traitIdent)) "task") = .ok targs := h
  have hprinted : ∀ key,
      (RticAttr.parseFromTokens (printer.print (intoTaskAttr attr traitIdent)) "task").intValue key =
        (intoTaskAttr attr traitIdent).intValue key := by
    intro key
    unfold RticAttr.intValue
    rw [RticAttr.getExpr_parseFromTokens (printer.print_perm _)]
  have hkept : ∀ key, key ≠ "task_trait" → key ≠ "spawn_by" → key ≠ "capacity" →
      (intoTaskAttr attr traitIdent).intValue key = attr.intValue key := by
    intro key htrait hspawn hcapacity
    unfold RticAttr.intValue
    rw [getExpr_intoTaskAttr htrait hspawn hcapacity]
  obtain ⟨hpriority, hcore⟩ := fromAttr_priority_core hargs
  obtain ⟨hpriority', hcore', -⟩ := fromAttr_params hparams
  rw [hprinted] at hpriority
  rw [hprinted, hkept "core" (by decide) (by decide) (by decide)] at hcore
  rw [← hkept "priority" (by decide) (by decide) (by decide)] at hpriority'
  constructor
  · exact hcore.trans hcore'.symm
  · intro n hvalue
    rw [hattr] at hvalue
    rw [hpriority, hpriority', hvalue]
    exact ⟨rfl, rfl⟩
  · intro hvalue
    rw [hattr] at hvalue
    rw [hpriority, hpriority', hvalue]
    exact ⟨rfl, rfl⟩

/-- What the core pass takes a dispatcher for. -/
def dispatcherArgs (irq : Ident) (priority core : Nat) : TaskArgs where
  binds := some irq
  priority := priority
  shared := []
  core := core
  taskTrait := hwtTraitTy
  initGenerated := true

/-- **The core pass reads a dispatcher as the pass has written it**, if its interrupt is an
identifier. -/
theorem taskArgs_dispatcherAttribute {irq : Path} {priority core : Nat} {targs : TaskArgs}
    (h : taskArgs (dispatcherAttribute irq priority core) = .ok targs) :
    ∃ ident, irq = [ident] ∧ targs = dispatcherArgs ident priority core := by
  obtain ⟨attr, hattr, h⟩ := bind_eq_ok.mp h
  cases hattr
  obtain ⟨_, _, h⟩ := bind_eq_ok.mp h
  obtain ⟨binds, hbinds, h⟩ := bind_eq_ok.mp h
  obtain ⟨priority', hpriority, h⟩ := bind_eq_ok.mp h
  obtain ⟨shared, hshared, h⟩ := bind_eq_ok.mp h
  obtain ⟨core', hcore, h⟩ := bind_eq_ok.mp h
  obtain ⟨taskTrait, htaskTrait, h⟩ := bind_eq_ok.mp h
  obtain ⟨initGenerated, hinit, h⟩ := bind_eq_ok.mp h
  cases h
  cases hshared
  cases htaskTrait
  cases hinit
  have hirq : some (Expr.path irq) = binds.map fun ident => Expr.path [ident] :=
    RticAttr.takeIdent_eq_ok hbinds
  have hprio : some (Expr.int priority) = priority'.map Expr.int :=
    (RticAttr.takeInt_eq_ok hpriority).1
  have hc : some (Expr.int core) = core'.map Expr.int := (RticAttr.takeInt_eq_ok hcore).1
  obtain ⟨ident, rfl, hident⟩ := Option.map_eq_some_iff.mp hirq.symm
  obtain ⟨p, rfl, hp⟩ := Option.map_eq_some_iff.mp hprio.symm
  obtain ⟨c, rfl, hc'⟩ := Option.map_eq_some_iff.mp hc.symm
  refine ⟨ident, (Expr.path.inj hident).symm, ?_⟩
  rw [← Expr.int.inj hp, ← Expr.int.inj hc']
  rfl

end Rticx.SwPass
