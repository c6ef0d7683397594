import Rticx.AsyncPass.Codegen
import Rticx.Core.Entry

/-!
# Where the executor slots live

`push_slot_inits` and `main_injection` of the async pass: each task gets a slot, which is a local of
the entry function of its core, and a pointer to it. The slots are to be live as long as the entry
function runs; but each is made in a block of its own.
-/

namespace Rticx.AsyncPass

open Rticx.Core (Ident Stmt MainInjection MainInjections EntryParts generateEntry)
open Rticx.Core.Source (ModuleItem)
open Rticx.Lib Rticx.SwPass

/-- `exec_ptr_ident` -/
def execPtrIdent (taskIdent : Ident) : Ident := s!"__rticx_internal__{taskIdent}__PTR"

/-- The statement that makes the slot of a task and stores its address. -/
def slotInit (task : SoftwareTask) : Stmt :=
  .block [.bind "__s", .store (execPtrIdent task.name) "__s"]

/-- `push_slot_inits` -/
def pushSlotInits (app : App) : SortedMap Nat (List Stmt) :=
  app.subApps.foldl (fun stmts sub =>
    sub.tasks.foldl (fun stmts task =>
      stmts.update sub.core fun pushed => pushed.getD [] ++ [slotInit task]) stmts) .empty

/-- `has_any` of `run_pass` -/
def hasTasks (app : App) : Bool :=
  app.subApps.any fun sub => !sub.swTasks.isEmpty || !sub.mcSwTasks.isEmpty

/-- `AsyncPass::main_injection`, with the check of the backend. -/
def mainInjection (app : App) (generateStackOverflowCheck : Nat → Option (List Stmt)) :
    MainInjection
  | .beforePostInit, _ =>
    if hasTasks app then some [.block [.other "__rticx_async_system_initialized = true;"]] else none
  | .entryStart, core =>
    if hasTasks app then
      some (((pushSlotInits app).get? core).getD [] ++ (generateStackOverflowCheck core).getD [])
    else none
  | .beforeInit, _ | .beforeIdle, _ => none

/-- The entry of a core keeps the slots of its tasks as long as their addresses are stored. -/
def SlotsOutlive (sub : SubApp) (entry : List Stmt) : Prop :=
  Scope.Live (sub.tasks.map fun task => execPtrIdent task.name) entry

instance (sub : SubApp) (entry : List Stmt) : Decidable (SlotsOutlive sub entry) :=
  inferInstanceAs (Decidable (Scope.Live _ entry))

/-! ## Every slot goes with its block -/

theorem get?_foldl_slotInit {core core' : Nat} {tasks : List SoftwareTask}
    {stmts : SortedMap Nat (List Stmt)} :
    ((tasks.foldl (fun stmts task =>
      stmts.update core fun pushed => pushed.getD [] ++ [slotInit task]) stmts).get? core').getD [] =
      (stmts.get? core').getD [] ++ if core' = core then tasks.map slotInit else [] := by
  induction tasks generalizing stmts with
  | nil => simp
  | cons task tasks ih =>
    rw [List.foldl_cons, ih, SortedMap.get?_update]
    by_cases hcore : core' = core
    · subst hcore
      simp
    · simp [hcore]

/-- **The entry of a core gets the slots of its own tasks.** -/
theorem get?_pushSlotInits (app : App) (core : Nat) :
    ((pushSlotInits app).get? core).getD [] =
      app.subApps.flatMap fun sub => if core = sub.core then sub.tasks.map slotInit else [] := by
  have hloop : ∀ (subApps : List SubApp) (stmts : SortedMap Nat (List Stmt)),
      ((subApps.foldl (fun stmts sub =>
        sub.tasks.foldl (fun stmts task =>
          stmts.update sub.core fun pushed => pushed.getD [] ++ [slotInit task]) stmts)
        stmts).get? core).getD [] =
      (stmts.get? core).getD [] ++
        subApps.flatMap fun sub => if core = sub.core then sub.tasks.map slotInit else [] := by
    intro subApps
    induction subApps with
    | nil => simp
    | cons sub subApps ih =>
      intro stmts
      rw [List.foldl_cons, ih, get?_foldl_slotInit, List.flatMap_cons, List.append_assoc]
  exact hloop app.subApps .empty

theorem hasTasks_of_mem {app : App} {sub : SubApp} (hsub : sub ∈ app.subApps)
    (hne : sub.tasks ≠ []) : hasTasks app = true := by
  unfold hasTasks
  rw [List.any_eq_true]
  refine ⟨sub, hsub, ?_⟩
  by_contra hempty
  refine hne ?_
  unfold SubApp.tasks
  simpa using hempty

/-- A slot is made and its address stored, and then it is gone. -/
theorem slotInit_run (task : SoftwareTask) (s : Scope.State Ident Ident) :
    ((slotInit task).run s).stored (execPtrIdent task.name) = some s.next := by
  show Function.update _ _ _ _ = _
  rw [Function.update_self]
  simp [Scope.State.find, Scope.State.bind, Scope.Stmt.run]

/-- The entry function begins with what is injected at its start, and goes on. -/
theorem generateEntry_eq (injections : MainInjections) (core : Nat) (parts : EntryParts) :
    ∃ rest, rest ≠ [] ∧
      generateEntry injections core parts = (injections.get .entryStart core).flatten ++ rest := by
  unfold generateEntry
  simp only [List.append_assoc]
  exact ⟨_, List.cons_ne_nil _ _, rfl⟩

/--
**No slot outlives its block.** Behind the slots comes at least the critical section of the
initialization, so the slots of a core are kept only if there are none.
-/
theorem slots_outlive_iff {hasCoreId : Bool} {appParams : AppParameters} {items : List ModuleItem}
    {app : App} {analysis : List SwPass.SubAnalysis}
    (h : runPass hasCoreId appParams items = .ok (app, analysis)) {sub : SubApp}
    (hsub : sub ∈ app.subApps) (generateStackOverflowCheck : Nat → Option (List Stmt))
    (before after : List MainInjection) (parts : EntryParts) :
    SlotsOutlive sub (generateEntry
      (MainInjections.collect (before ++ mainInjection app generateStackOverflowCheck :: after)
        appParams.cores) sub.core parts) ↔ sub.tasks = [] := by
  constructor
  · intro hlive
    by_contra hne
    obtain ⟨task, htask⟩ := List.exists_mem_of_ne_nil _ hne
    have hcore : sub.core < appParams.cores := by
      obtain ⟨tasks, hsubs, _⟩ := parseTasks_ok (runPass_ok h).1
      rw [hsubs] at hsub
      obtain ⟨core, hcore, rfl⟩ := List.mem_map.mp hsub
      exact List.mem_range.mp hcore
    have hmem : slotInit task ∈ ((pushSlotInits app).get? sub.core).getD [] := by
      rw [get?_pushSlotInits]
      refine List.mem_flatMap.mpr ⟨sub, hsub, ?_⟩
      rw [if_pos rfl]
      exact List.mem_map_of_mem htask
    have hstart : ((pushSlotInits app).get? sub.core).getD [] ++
        (generateStackOverflowCheck sub.core).getD [] ∈
        (MainInjections.collect (before ++ mainInjection app generateStackOverflowCheck :: after)
          appParams.cores).get .entryStart sub.core := by
      rw [MainInjections.get_collect hcore]
      refine List.mem_filterMap.mpr ⟨_, List.mem_append_right _ List.mem_cons_self, ?_⟩
      exact if_pos (hasTasks_of_mem hsub hne)
    obtain ⟨rest, hrest, hentry⟩ := generateEntry_eq (MainInjections.collect
      (before ++ mainInjection app generateStackOverflowCheck :: after) appParams.cores)
      sub.core parts
    obtain ⟨stmts, stmts', hsplit⟩ := List.append_of_mem (List.mem_flatten.mpr
      ⟨_, hstart, List.mem_append_left _ hmem⟩)
    rw [hentry, hsplit, List.append_assoc] at hlive
    -- the statement behind the block of the slot
    have hnext : stmts' ++ rest ≠ [] := by simp [hrest]
    have hptr : execPtrIdent task.name ∈ sub.tasks.map fun task => execPtrIdent task.name :=
      List.mem_map_of_mem htask
    exact Scope.not_live_of_block hptr (Nat.le_refl _) (slotInit_run task _) hnext hlive
  · intro hnil
    unfold SlotsOutlive
    rw [hnil]
    intro s _ ptr hptr
    cases hptr

/-- An entry function without anything else in it. -/
def bareEntry : EntryParts where
  hasShared := false
  userTaskInitsWrites := []
  generatedTaskInitCalls := []
  backendPostInit := []
  enableGlobalInterrupts := []
  userPostInitCall := []
  callIdleTask := [.other "loop"]

def pingApp : List ModuleItem := [asyncTask "Ping" [("priority", some (.int 1))]]

def oneCore : AppParameters := ⟨AList.singleton 0 [["IRQ"]], 1⟩

/-- One task on one core: its slot is gone before the first statement of the initialization. -/
theorem slot_dangles : ∃ app analysis, runPass false oneCore pingApp = .ok (app, analysis) ∧
    ∃ sub ∈ app.subApps, ¬ SlotsOutlive sub (generateEntry
      (MainInjections.collect [mainInjection app fun _ => none] oneCore.cores) sub.core
        bareEntry) := by
  refine ⟨_, _, rfl, _, List.mem_cons_self, ?_⟩
  decide +kernel

/-- The second core has no tasks. -/
theorem slots_outlive_iff_second : ∃ app analysis sub,
    runPass false ⟨AList.singleton 0 [["IRQ"]], 2⟩ pingApp = .ok (app, analysis) ∧
    sub ∈ app.subApps ∧ sub.core = 1 ∧
    (SlotsOutlive sub (generateEntry
      (MainInjections.collect [mainInjection app fun _ => none] 2) sub.core bareEntry) ↔
        sub.tasks = []) := by
  refine ⟨_, _, _, rfl, List.mem_cons_of_mem _ List.mem_cons_self, rfl, ?_⟩
  exact @slots_outlive_iff false ⟨AList.singleton 0 [["IRQ"]], 2⟩ pingApp _ _ rfl _
    (List.mem_cons_of_mem _ List.mem_cons_self) (fun _ => none) [] [] bareEntry

end Rticx.AsyncPass
