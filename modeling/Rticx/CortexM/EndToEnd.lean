import Rticx.AsyncPass.Output
import Rticx.CortexM.Wiring

/-!
# From the passes to the runs

What becomes of the tasks of an app when the software pass or the async pass has generated its code,
the core pass has read this code, and the interrupts of a core run it: every spawned task is executed
by the handler that its spawn pends or by idle, at its priority if one is written, and where the
device supports the locks they exclude each other.
-/

namespace Rticx.CortexM

open Rticx.Core Rticx.Lib Rticx.Lib.Except
open Source (ModuleItem)
open SwPass (SoftwareTask Consumer ReadAs)

/-- The tasks of an app in the program of a core; `polls` tells which of them have no dispatcher. -/
structure EndToEnd (polls : SoftwareTask → Prop) (app : SwPass.App)
    (analysis : List SwPass.SubAnalysis) (b : Nat) (P : Program) : Prop where
  /-- a spawn pends the interrupt of the handler that executes the task -/
  spawned : ∀ x ∈ app.subApps.zip analysis, x.1.core = P.sub.core → ∀ task ∈ x.1.tasks,
    ¬ polls task →
    ∃ irq d u, x.2.dispatcherPriorityMap.get? task.params.priority = some [irq] ∧
      P.handler irq = some d ∧ d.args.priority = task.params.priority ∧ u.name = task.name ∧
      ReadAs task u.args ∧ u ∈ P.executes (some d)
  /-- the tasks without a dispatcher are executed by the idle task, which is the executor -/
  polled : ∀ task ∈ app.tasks, task.params.core = P.sub.core → polls task →
    (∃ t, P.sub.idle = some t ∧ t.name = AsyncPass.idleExecutorIdent P.sub.core) ∧
    ∃ u, u.name = task.name ∧ ReadAs task u.args ∧ u ∈ P.executes none
  /-- dispatchers and idle execute nothing else -/
  dispatched : (∀ d, ∀ u ∈ P.dispatched d, ∃ task ∈ app.tasks, task.name = u.name ∧
      task.params.core = P.sub.core ∧ task.params.priority = d.args.priority) ∧
    ∀ u ∈ P.polled, ∃ task ∈ app.tasks, task.name = u.name ∧ task.params.core = P.sub.core ∧
      task.params.priority = 0
  /-- with priorities that the device has, in runs whose locks it supports -/
  exclusive : (∀ t ∈ P.sub.tasks, t.args.binds.isSome = true →
      1 ≤ t.args.priority ∧ t.args.priority ≤ 2 ^ b) →
    ∃ nvic, P.boot b = .ok nvic ∧ ∀ as s, (Basepri.machine P b nvic).exec .init as = some s →
      (Basepri.machine P b nvic).Along (Basepri.LocksSupported P b) .init as →
      s.frames.Pairwise fun f g => ∀ resource ∈ f.held, resource ∉ g.held

section

variable {pass : SwPass.TaskPass} {appParams : SwPass.AppParameters} {items out : List ModuleItem}
  {app : SwPass.App} {analysis : List SwPass.SubAnalysis} {printer : SwPass.Printer}
  {consumers : List Consumer} {args : AppArgs} {coreApp : Source.App} {app' : App}
  {coreAnalysis : Analysis} {sub : SubApp} {b : Nat}

/-- In the runs of any program of an analyzed app locks exclude each other. -/
theorem exclusive_of_run (hcore : Source.App.parse args out = .ok coreApp)
    (hrun : Analysis.run coreApp.erase = .ok (app', coreAnalysis)) (P : Program)
    (hsub : P.sub ∈ app'.subApps) (hb : PrioBits b)
    (hprio : ∀ t ∈ P.sub.tasks, t.args.binds.isSome = true →
      1 ≤ t.args.priority ∧ t.args.priority ≤ 2 ^ b) :
    ∃ nvic, P.boot b = .ok nvic ∧ ∀ as s, (Basepri.machine P b nvic).exec .init as = some s →
      (Basepri.machine P b nvic).Along (Basepri.LocksSupported P b) .init as →
      s.frames.Pairwise fun f g => ∀ resource ∈ f.held, resource ∉ g.held := by
  have hceiling : ∀ resource e, P.sub.getField resource = some e →
      e.priority = Core.ceiling P.sub.tasks resource :=
    fun resource e he => Analysis.run_ceiling (Source.parse_erase hcore) hrun hsub he
  obtain ⟨nvic, hboot⟩ := Program.boot_ok fun t ht hbound => (hprio t ht hbound).2
  refine ⟨nvic, hboot, ?_⟩
  intro as s hexec halong
  have hadm := (Basepri.stack_exec hb hboot hceiling hprio hexec halong).2.1.admissible
  exact List.pairwise_map.mp hadm.exclusive

/-- What the dispatchers and the executors of a wired program execute. -/
theorem dispatched_of_wired (hwired : Wired app.tasks consumers sub)
    (hconsumers : OfGroups analysis consumers) (hnames : (sub.tasks.map (·.name)).Nodup)
    (hbinds : (sub.tasks.filterMap (·.args.binds)).Nodup) :
    (∀ d, ∀ u ∈ (Program.ofConsumers hwired hnames hbinds).dispatched d, ∃ task ∈ app.tasks,
      task.name = u.name ∧ task.params.core = sub.core ∧ task.params.priority = d.args.priority) ∧
    ∀ u ∈ (Program.ofConsumers hwired hnames hbinds).polled, ∃ task ∈ app.tasks,
      task.name = u.name ∧ task.params.core = sub.core ∧ task.params.priority = 0 := by
  constructor
  · intro d u hu
    obtain ⟨hd, k, hk, hkCore, hkind, hname, hu⟩ := mem_dispatchedTasks.mp hu
    obtain ⟨irq, hdargs⟩ := hwired.dispatcher_args hnames hk hkCore hkind hd hname
    obtain ⟨task, htask, htaskName, htaskCore, hpriority, -⟩ := hwired.readAs hnames hk hkCore hu
    exact ⟨task, htask, htaskName, htaskCore, hdargs ▸ hpriority⟩
  · intro u hu
    obtain ⟨k, hk, hu⟩ := List.mem_flatMap.mp hu
    obtain ⟨hk, hkind⟩ := List.mem_filter.mp hk
    obtain ⟨hkCore, hkind⟩ : k.core = sub.core ∧ k.kind = .idle := by simpa using hkind
    obtain ⟨task, htask, htaskName, htaskCore, hpriority, -⟩ := hwired.readAs hnames hk hkCore hu
    refine ⟨task, htask, htaskName, htaskCore, hpriority.trans ?_⟩
    -- the only group of an idle executor is that of priority 0
    obtain ⟨a, -, ⟨group, -, kind, hne, rfl⟩ | rfl⟩ := hconsumers k hk
    · exact absurd hkind hne
    · rfl

/-- **From the software pass to the core.** The software pass generates code for every app that it
accepts. Where the core pass accepts it as well, with different names and interrupts, it wires up the
dispatchers that were generated, and each core runs the software tasks with them: a spawn pends the
interrupt of the dispatcher of its task, which runs nothing but its tasks, and locks that the device
supports exclude each other. -/
theorem sw_pass_end_to_end {hasCoreId : Bool}
    (hpass : SwPass.runPass hasCoreId appParams items = .ok (app, analysis))
    (printer : SwPass.Printer) (pendFns : List Source.ItemFn) {pacs : List SwPass.Path}
    (hpacs : pacs.length = appParams.cores) :
    ∃ out, SwPass.CodeGen.run printer pacs pendFns app analysis = .ok out ∧
      ∀ args coreApp app' coreAnalysis sub, Source.App.parse args out = .ok coreApp →
        Analysis.run coreApp.erase = .ok (app', coreAnalysis) → sub ∈ app'.subApps →
        ∀ (hnames : (sub.tasks.map (·.name)).Nodup)
          (hbinds : (sub.tasks.filterMap (·.args.binds)).Nodup),
          ∃ hwired : Wired app.tasks (SwPass.generateSubapps hasCoreId app analysis).consumers sub,
            ∀ b, PrioBits b →
              EndToEnd (fun _ => False) app analysis b (.ofConsumers hwired hnames hbinds) := by
  obtain ⟨out, hout⟩ : ∃ out, SwPass.CodeGen.run printer pacs pendFns app analysis = .ok out :=
    SwPass.CodeGen.run_ok hpass hpacs
  refine ⟨out, hout, ?_⟩
  intro args coreApp app' coreAnalysis sub hcore hrun hsub hnames hbinds
  have hhanded := SwPass.CodeGen.handedOn hpass hout
  obtain ⟨parsed, hparse, hpass⟩ := bind_eq_ok.mp hpass
  obtain ⟨_, _, hpass⟩ := bind_eq_ok.mp hpass
  obtain ⟨analysis', hanalysis, hpass⟩ := bind_eq_ok.mp hpass
  cases hpass
  have hanalysed : List.Forall₂ SwPass.Analysed app.subApps analysis :=
    (mapM_forall₂ hanalysis).imp fun _ _ => SwPass.analysed
  have hgroups : ∀ a ∈ analysis, ∀ group ∈ a.tasksPriorityMap.entries, ∃ kind ≠ .idle,
      Consumer.ofGroup kind a.core group.1 group.2 ∈
        (SwPass.generateSubapps hasCoreId app analysis).consumers := by
    intro a ha group hgroup
    refine ⟨.software, by simp, List.mem_flatMap.mpr ⟨a, ha, ?_⟩⟩
    exact SwPass.mem_generateDispatcherTasks.mpr ⟨group, hgroup, rfl⟩
  have hconsumers : OfGroups analysis (SwPass.generateSubapps hasCoreId app analysis).consumers := by
    intro k hk
    obtain ⟨a, ha, hk⟩ := List.mem_flatMap.mp hk
    obtain ⟨group, hgroup, rfl⟩ := SwPass.mem_generateDispatcherTasks.mp hk
    exact ⟨a, ha, Or.inl ⟨group, hgroup, .software, by simp, rfl⟩⟩
  have hwired := wired_of_handedOn hparse hanalysed hhanded hconsumers hcore hrun hsub
  refine ⟨hwired, fun b hb => ⟨?_, ?_, ?_, ?_⟩⟩
  · rintro ⟨swSub, a⟩ hzip hcores task htask -
    have ha := (List.forall₂_iff_zip.mp (mapM_forall₂ hanalysis)).2 hzip
    obtain ⟨-, -, -, hprio0, -⟩ := SwPass.analyseGroups_iff.mp ha
    exact exists_handler hparse hanalysed hhanded hcore hrun hsub hgroups hwired hnames hbinds hzip
      hcores htask fun _ => hprio0
  · intro task htask htaskCore hpolls
    exact hpolls.elim
  · exact dispatched_of_wired hwired hconsumers hnames hbinds
  · intro hprio
    exact exclusive_of_run hcore hrun (.ofConsumers hwired hnames hbinds) hsub hb hprio

/-- The core pass reads the core of the idle executor. -/
theorem core_of_idleAttribute {core : Nat} {targs : TaskArgs}
    (h : Source.taskArgs (AsyncPass.idleAttribute core) = .ok targs) : targs.core = core := by
  have hargs : TaskArgs.fromAttr (RticAttr.parseFromTokens
      [("core", some (.int core)), ("init", some (.path ["generated"]))] "idle") = .ok targs := h
  obtain ⟨-, hcore⟩ := SwPass.fromAttr_priority_core hargs
  exact hcore

/-- **From the async pass to the core.** The same of the async pass: here the tasks of priority 0 are
executed by the idle task of their core, which the core pass takes from the generated code. A timer
of the priority that the generated code names preempts all of them, below the highest `u8`. -/
theorem async_pass_end_to_end {hasCoreId : Bool}
    (hpass : AsyncPass.runPass hasCoreId appParams items = .ok (app, analysis))
    (printer : SwPass.Printer) (pendFns : List Source.ItemFn) {pacs : List SwPass.Path}
    (hpacs : pacs.length = appParams.cores) :
    ∃ out, AsyncPass.CodeGen.run printer pacs pendFns app analysis = .ok out ∧
      (∀ task ∈ app.tasks, task.params.priority < 2 ^ 8 - 1 →
        task.params.priority < AsyncPass.asyncPrioLimit analysis) ∧
      ∀ args coreApp app' coreAnalysis sub, Source.App.parse args out = .ok coreApp →
        Analysis.run coreApp.erase = .ok (app', coreAnalysis) → sub ∈ app'.subApps →
        ∀ (hnames : (sub.tasks.map (·.name)).Nodup)
          (hbinds : (sub.tasks.filterMap (·.args.binds)).Nodup),
          ∃ hwired : Wired app.tasks
              (AsyncPass.generateSubapps hasCoreId app analysis).consumers sub,
            ∀ b, PrioBits b → EndToEnd (fun task => task.params.priority = 0) app analysis b
              (.ofConsumers hwired hnames hbinds) := by
  obtain ⟨out, hout⟩ : ∃ out, AsyncPass.CodeGen.run printer pacs pendFns app analysis = .ok out :=
    AsyncPass.CodeGen.run_ok hpass hpacs
  obtain ⟨hhanded, hidle⟩ := AsyncPass.CodeGen.handedOn hpass hout
  obtain ⟨hparse, hanalysis⟩ := AsyncPass.runPass_ok hpass
  have hforall := mapM_forall₂ hanalysis
  have hanalysed : List.Forall₂ SwPass.Analysed app.subApps analysis :=
    hforall.imp fun _ _ => AsyncPass.analysed
  refine ⟨out, hout, fun task => AsyncPass.lt_asyncPrioLimit hanalysed, ?_⟩
  intro args coreApp app' coreAnalysis sub hcore hrun hsub hnames hbinds
  have hgroups : ∀ a ∈ analysis, ∀ group ∈ a.tasksPriorityMap.entries, ∃ kind ≠ .idle,
      Consumer.ofGroup kind a.core group.1 group.2 ∈
        (AsyncPass.generateSubapps hasCoreId app analysis).consumers := by
    intro a ha group hgroup
    refine ⟨.async, by simp, List.mem_flatMap.mpr ⟨a, ha, List.mem_append_left _ ?_⟩⟩
    exact SwPass.mem_generateDispatcherTasks.mpr ⟨group, hgroup, rfl⟩
  have hconsumers :
      OfGroups analysis (AsyncPass.generateSubapps hasCoreId app analysis).consumers := by
    intro k hk
    obtain ⟨a, ha, hk⟩ := List.mem_flatMap.mp hk
    refine ⟨a, ha, ?_⟩
    rcases List.mem_append.mp hk with hk | hk
    · obtain ⟨group, hgroup, rfl⟩ := SwPass.mem_generateDispatcherTasks.mp hk
      exact Or.inl ⟨group, hgroup, .async, by simp, rfl⟩
    · unfold AsyncPass.generateIdleExecutor at hk
      split at hk
      · cases hk
      · exact Or.inr (List.mem_singleton.mp hk)
  have hwired := wired_of_handedOn hparse hanalysed hhanded hconsumers hcore hrun hsub
  refine ⟨hwired, fun b hb => ⟨?_, ?_, ?_, ?_⟩⟩
  · rintro ⟨asyncSub, a⟩ hzip hcores task htask hpolls
    exact exists_handler hparse hanalysed hhanded hcore hrun hsub hgroups hwired hnames hbinds hzip
      hcores htask fun hzero => absurd hzero hpolls
  · intro task htask htaskCore hpolls
    obtain ⟨asyncSub, hasyncSub, htaskSub⟩ := List.mem_flatMap.mp htask
    obtain ⟨a, ha, hzip⟩ := SwPass.mem_zip_of_length_le hforall.length_eq.le hasyncSub
    have hsubAnalysed := (List.forall₂_iff_zip.mp hanalysed).2 hzip
    have hsubCore : asyncSub.core = sub.core :=
      (core_of_mem_subApps hparse hasyncSub task htaskSub).1.symm.trans htaskCore
    have haCore : a.core = sub.core := hsubAnalysed.core.trans hsubCore
    obtain ⟨entry, hentry, hname⟩ :=
      AsyncPass.exists_prio0Tasks ((List.forall₂_iff_zip.mp hforall).2 hzip) htaskSub hpolls
    have hne : a.prio0Tasks ≠ [] := List.ne_nil_of_mem hentry
    constructor
    · obtain ⟨targs, htargs, hmem⟩ := idle_of_run hcore hrun (hidle _ hzip hne) rfl
      rw [core_of_idleAttribute htargs, hsubCore] at hmem
      obtain ⟨t, ht, hident⟩ := hmem sub hsub rfl
      exact ⟨t, ht, hident⟩
    · refine exists_polled hwired hnames hbinds (List.mem_flatMap.mpr ⟨a, ha, ?_⟩) htask htaskCore
        hentry hname
      refine List.mem_append_right _ ?_
      simp [AsyncPass.generateIdleExecutor, hne, haCore]
  · exact dispatched_of_wired hwired hconsumers hnames hbinds
  · intro hprio
    exact exclusive_of_run hcore hrun (.ofConsumers hwired hnames hbinds) hsub hb hprio

end

/-! ## Two apps -/

/-- The arguments in the order of their keys. -/
def inOrder : SwPass.Printer := ⟨RticAttr.argsTokens, fun _ => .refl _⟩

/-- One core with one interrupt for dispatchers. -/
def exti : SwPass.AppParameters := ⟨AList.singleton 0 [["EXTI0"]], 1⟩

/-- What the core pass makes of a generated module. -/
def readBack (out : List ModuleItem) : Except String (List SubApp) := do
  let coreApp ← Source.App.parse ⟨["pac"], 1⟩ out
  let (app', _) ← Analysis.run coreApp.erase
  return app'.subApps

/-- `init` with the struct of one task and its `impl` block. -/
def appOf (task : Core.Ident) (attr : Source.Attribute) (trait : Core.Ident) : List ModuleItem :=
  [.strct ⟨task, [attr], [], ";"⟩, .impl ⟨some [trait], some [task], "exec"⟩,
    .fn ⟨"init", [⟨["init"], .path⟩], "() -> TaskInits"⟩]

def blinkItems : List ModuleItem :=
  appOf "Blink" ⟨["sw_task"], .list [("priority", some (.int 2))]⟩ "RticSwTask"

/-- What the core pass makes of it behind the software pass. -/
def blinkRun : Except String (List SubApp) := do
  let (app, analysis) ← SwPass.runPass false exti blinkItems
  readBack (← SwPass.CodeGen.run inOrder [["pac"]] [] app analysis)

theorem blink_end_to_end : ∃ app analysis sub,
    ∃ hwired : Wired app.tasks (SwPass.generateSubapps false app analysis).consumers sub,
    ∃ hnames hbinds,
      EndToEnd (fun _ => False) app analysis 4 (.ofConsumers hwired hnames hbinds) ∧
      sub.tasks.map (·.name) = ["Blink", "Core0Priority2Dispatcher"] ∧
      sub.tasks.filterMap (·.args.binds) = ["EXTI0"] := by
  obtain ⟨subs, hsubs, sub, hsub, hnames, hbinds⟩ : ∃ subs, blinkRun = .ok subs ∧ ∃ sub ∈ subs,
      sub.tasks.map (·.name) = ["Blink", "Core0Priority2Dispatcher"] ∧
      sub.tasks.filterMap (·.args.binds) = ["EXTI0"] :=
    ⟨_, rfl, _, List.mem_cons_self, by decide +kernel, by decide +kernel⟩
  obtain ⟨⟨app, analysis⟩, hpass, hsubs⟩ := bind_eq_ok.mp hsubs
  obtain ⟨out, hout, hsubs⟩ := bind_eq_ok.mp hsubs
  obtain ⟨coreApp, hcore, hsubs⟩ := bind_eq_ok.mp hsubs
  obtain ⟨⟨app', coreAnalysis⟩, hrun, hsubs⟩ := bind_eq_ok.mp hsubs
  cases hsubs
  obtain ⟨out', hout', hall⟩ :=
    @sw_pass_end_to_end exti blinkItems app analysis false hpass inOrder [] [["pac"]] rfl
  cases hout.symm.trans hout'
  obtain ⟨hwired, hends⟩ := hall _ coreApp app' coreAnalysis sub hcore hrun hsub (by simp [hnames])
    (by simp [hbinds])
  exact ⟨app, analysis, sub, hwired, _, _, hends 4 ⟨by simp, by simp⟩, hnames, hbinds⟩

/-- An async task for the idle executor. -/
def logItems : List ModuleItem :=
  appOf "Log" ⟨["async_task"], .list [("priority", some (.int 0))]⟩ "RticAsyncTask"

/-- Its name and what the core pass makes of it behind the async pass. -/
def logRun : Except String (List Core.Ident × List SubApp) := do
  let (app, analysis) ← AsyncPass.runPass false exti logItems
  let subs ← readBack (← AsyncPass.CodeGen.run inOrder [["pac"]] [] app analysis)
  return (app.tasks.map (·.name), subs)

theorem log_end_to_end : ∃ app analysis sub,
    ∃ hwired : Wired app.tasks (AsyncPass.generateSubapps false app analysis).consumers sub,
    ∃ hnames hbinds,
      EndToEnd (fun task => task.params.priority = 0) app analysis 4
        (.ofConsumers hwired hnames hbinds) ∧
      app.tasks.map (·.name) = ["Log"] ∧
      sub.idle.map (·.name) = some "__RticxAsyncPrio0ExecutorCore0" := by
  obtain ⟨⟨names, subs⟩, hsubs, rfl, sub, hsub, hidle, hnames, hbinds⟩ :
      ∃ result, logRun = .ok result ∧ result.1 = ["Log"] ∧
      ∃ sub ∈ result.2, sub.idle.map (·.name) = some "__RticxAsyncPrio0ExecutorCore0" ∧
      sub.tasks.map (·.name) = ["Log"] ∧ sub.tasks.filterMap (·.args.binds) = [] :=
    ⟨_, rfl, by decide +kernel, _, List.mem_cons_self, by decide +kernel, by decide +kernel,
      by decide +kernel⟩
  obtain ⟨⟨app, analysis⟩, hpass, hsubs⟩ := bind_eq_ok.mp hsubs
  obtain ⟨out, hout, hsubs⟩ := bind_eq_ok.mp hsubs
  obtain ⟨subs', hread, hsubs⟩ := bind_eq_ok.mp hsubs
  obtain ⟨happ, hsubs⟩ := Prod.mk.inj (Except.ok.inj hsubs)
  obtain ⟨coreApp, hcore, hread⟩ := bind_eq_ok.mp hread
  obtain ⟨⟨app', coreAnalysis⟩, hrun, hread⟩ := bind_eq_ok.mp hread
  cases hread
  subst hsubs
  obtain ⟨out', hout', -, hall⟩ :=
    @async_pass_end_to_end exti logItems app analysis false hpass inOrder [] [["pac"]] rfl
  cases hout.symm.trans hout'
  obtain ⟨hwired, hends⟩ := hall _ coreApp app' coreAnalysis sub hcore hrun hsub (by simp [hnames])
    (by simp [hbinds])
  exact ⟨app, analysis, sub, hwired, _, _, hends 4 ⟨by simp, by simp⟩, happ, hidle⟩

end Rticx.CortexM
