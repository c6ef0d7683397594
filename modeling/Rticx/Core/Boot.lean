import Mathlib.Data.List.Basic
import Rticx.Core.Entry
import Rticx.Core.Resources
import Rticx.Lib.History
import Rticx.Lib.Machine

/-!
# The boot of a core

`generate_sub_app` and `generate_idle_call` of `rticx-core/src/codegen/mod.rs`, `task_init.rs` and
`hw_task.rs`, as far as they write and use the statics: each task, idle and the shared struct has a
`static mut` instance that is not initialized at reset. User tasks get their values out of the
`TaskInits` that `#[init]` returns, generated tasks are made in a block of their own, and a
generated idle by its call.

All of this but the idle call is in the closure of `#interrupt_free`, which keeps the handlers from
running. It does not keep the code of `#[init]` from taking a lock.
-/

namespace Rticx.Core

open Lib Lib.Except

/-! ## Names -/

/-- How the case of an identifier is changed. -/
structure Cases where
  toSnakeCase : Ident → Ident
  toUppercase : Ident → Ident

/-- `uppercase_ident` -/
def Cases.uppercaseIdent (cases : Cases) (ident : Ident) : Ident :=
  cases.toUppercase (cases.toSnakeCase ident)

/-- `snakecase_ident` -/
def Cases.snakecaseIdent (cases : Cases) (ident : Ident) : Ident := cases.toSnakeCase ident

/-! ## The entry function -/

/-- What is written to a static. -/
inductive Value where
  /-- `__shared_resources` -/
  | sharedResources
  /-- `__task_inits.#field_name` -/
  | taskInit (fieldName : Ident)
  /-- the value of a unit struct -/
  | unit (taskTy : Ident)
  deriving DecidableEq

/-- The statements of an entry function, without the blocks around them. -/
inductive Statement where
  | inject (point : MainInjectionPoint)
  /-- `#interrupt_free(||{` -/
  | interruptFree
  /-- the call of the `#[init]` function -/
  | init
  | write (handle : Ident) (value : Value)
  | backendPostInit
  /-- `});` -/
  | closureEnd
  | enableGlobalInterrupts
  | userPostInit
  /-- `#handle.assume_init_mut().exec();` of idle, which does not return -/
  | exec (handle : Ident)
  /-- the `loop` in place of idle -/
  | idleLoop
  deriving DecidableEq

/-- The struct that `#[init]` returns, with the types of its fields. -/
structure TaskInitsStruct where
  ident : Ident
  fields : List (Ident × Ident)

/-- `task_inits_ident` -/
def taskInitsIdent (numSubApps : Nat) (core : Nat) : Ident :=
  if numSubApps = 1 then "TaskInits" else s!"TaskInitsCore{core}"

section Codegen

variable (cases : Cases)

/-- `generate_task_inits_struct` -/
def generateTaskInitsStruct (structName : Ident) (tasks : List Ident) : TaskInitsStruct where
  ident := structName
  fields := tasks.map fun t => (cases.snakecaseIdent t, t)

/-- `generate_task_inits_write_calls` -/
def generateTaskInitsWriteCalls (tasks : List Ident) : List Statement :=
  tasks.map fun t => .write (cases.uppercaseIdent t) (.taskInit (cases.snakecaseIdent t))

/-- `name_uppercase` -/
def RticTask.nameUppercase (t : RticTask) : Ident := cases.uppercaseIdent t.name

/-- `name_uppercase` -/
def SharedResources.nameUppercase (shared : SharedResources) : Ident :=
  cases.uppercaseIdent shared.strct

/-- `task_init_call` -/
def RticTask.taskInitCall (t : RticTask) : Option Statement :=
  if t.args.initGenerated then some (.write (t.nameUppercase cases) (.unit t.name)) else none

/-- `init_system` -/
def initSystem (app : SubApp) (analysis : SubAnalysis) : List Statement :=
  let writes := if analysis.lateResourceTasks.isEmpty then [] else
    generateTaskInitsWriteCalls cases analysis.lateResourceTasks
  match app.shared with
  | some shared => [.init, .write (shared.nameUppercase cases) .sharedResources] ++ writes
  | none => .init :: writes

/-- `generate_idle_call` -/
def generateIdleCall : Option RticTask → List Statement
  | none => [.idleLoop]
  | some idle =>
    let write := if idle.args.initGenerated then
      [.write (idle.nameUppercase cases) (.unit idle.name)] else []
    write ++ [.exec (idle.nameUppercase cases)]

/-- The entry function of `generate_sub_app`. -/
def generateSubApp (app : SubApp) (analysis : SubAnalysis) : List Statement :=
  let generatedTaskInitCalls := app.tasks.filterMap (RticTask.taskInitCall cases)
  let userPostInitCall := app.postInit.toList.map fun _ => Statement.userPostInit
  [.inject .entryStart, .interruptFree, .inject .beforeInit] ++ initSystem cases app analysis ++
  generatedTaskInitCalls ++ [.inject .beforePostInit, .backendPostInit, .closureEnd] ++
  [.inject .beforeIdle, .enableGlobalInterrupts] ++ userPostInitCall ++
  generateIdleCall cases app.idle

/-- The static instances of a sub-app. -/
def SubApp.handles (app : SubApp) : List Ident :=
  app.shared.toList.map (·.nameUppercase cases) ++
    (app.tasks ++ app.idle.toList).map (·.nameUppercase cases)

end Codegen

/-! ## What the entry function writes -/

namespace Statement

/-- What a statement writes to a static. -/
def writes : Statement → Option (Ident × Value)
  | .write handle value => some (handle, value)
  | _ => none

end Statement

/-- What is written to the static of a task. -/
def RticTask.initValue (cases : Cases) (t : RticTask) : Value :=
  if t.args.initGenerated then .unit t.name else .taskInit (cases.snakecaseIdent t.name)

variable {cases : Cases} {sub : SubApp}

/-- In the closure: the shared struct, what the user initializes and what the framework does. -/
def SubApp.closureWrites (cases : Cases) (sub : SubApp) : List (Ident × Value) :=
  sub.shared.toList.map (fun shared => (shared.nameUppercase cases, .sharedResources)) ++
    ((sub.tasks ++ sub.idle.toList).filter fun t => !t.args.initGenerated).map
      (fun t => (t.nameUppercase cases, t.initValue cases)) ++
    (sub.tasks.filter fun t => t.args.initGenerated).map
      fun t => (t.nameUppercase cases, t.initValue cases)

/-- In the idle call. -/
def SubApp.idleWrites (cases : Cases) (sub : SubApp) : List (Ident × Value) :=
  (sub.idle.toList.filter fun t => t.args.initGenerated).map
    fun t => (t.nameUppercase cases, t.initValue cases)

theorem lateResourceTasks_eq (sub : SubApp) :
    (SubAnalysis.run sub).lateResourceTasks =
      ((sub.tasks ++ sub.idle.toList).filter fun t => !t.args.initGenerated).map (·.name) := by
  show List.filterMap _ (sub.tasks ++ sub.idle.toList) = _
  induction sub.tasks ++ sub.idle.toList with
  | nil => rfl
  | cons t ts ih =>
    cases hg : t.args.initGenerated
    · simp [hg, ih]
    · simp [hg, ih]

/-- The statement that writes a value to a static. -/
def Statement.ofWrite (w : Ident × Value) : Statement := .write w.1 w.2

theorem initSystem_eq (analysis : SubAnalysis) :
    initSystem cases sub analysis =
      .init :: (sub.shared.toList.map fun shared =>
        Statement.write (shared.nameUppercase cases) .sharedResources) ++
        generateTaskInitsWriteCalls cases analysis.lateResourceTasks := by
  unfold initSystem generateTaskInitsWriteCalls
  cases sub.shared <;> cases analysis.lateResourceTasks <;> rfl

theorem generatedTaskInitCalls_eq (tasks : List RticTask) :
    tasks.filterMap (RticTask.taskInitCall cases) =
      ((tasks.filter fun t => t.args.initGenerated).map
        fun t => (t.nameUppercase cases, t.initValue cases)).map Statement.ofWrite := by
  induction tasks with
  | nil => rfl
  | cons t ts ih =>
    cases hg : t.args.initGenerated
    · simp [RticTask.taskInitCall, hg, ih]
    · simp [RticTask.taskInitCall, RticTask.initValue, Statement.ofWrite, hg, ih]

theorem userWrites_eq (tasks : List RticTask) :
    generateTaskInitsWriteCalls cases
        ((tasks.filter fun t => !t.args.initGenerated).map (·.name)) =
      ((tasks.filter fun t => !t.args.initGenerated).map
        fun t => (t.nameUppercase cases, t.initValue cases)).map Statement.ofWrite := by
  unfold generateTaskInitsWriteCalls
  rw [List.map_map, List.map_map]
  refine List.map_congr_left fun t ht => ?_
  have hg : t.args.initGenerated = false := by simpa using (List.mem_filter.mp ht).2
  simp [RticTask.initValue, RticTask.nameUppercase, Statement.ofWrite, hg]

/-- In front of the call of `#[init]`. -/
def beforeInit : List Statement := [.inject .entryStart, .interruptFree, .inject .beforeInit]

/-- Between that call and the end of the closure. -/
def SubApp.closureRest (cases : Cases) (sub : SubApp) : List Statement :=
  (sub.closureWrites cases).map Statement.ofWrite ++ [.inject .beforePostInit, .backendPostInit]

/-- Behind the closure and in front of the idle call itself. -/
def SubApp.beforeExec (cases : Cases) (sub : SubApp) : List Statement :=
  [.inject .beforeIdle, .enableGlobalInterrupts] ++
    (sub.postInit.toList.map fun _ => Statement.userPostInit) ++
    (sub.idleWrites cases).map Statement.ofWrite

/-- Idle, or the loop in its place. -/
def SubApp.idleExec (cases : Cases) (sub : SubApp) : Statement :=
  match sub.idle with
  | none => .idleLoop
  | some idle => .exec (idle.nameUppercase cases)

/-- **The shape of the entry function.** -/
theorem generateSubApp_eq (cases : Cases) (sub : SubApp) :
    generateSubApp cases sub (SubAnalysis.run sub) =
      beforeInit ++ .init :: (sub.closureRest cases ++ .closureEnd :: (sub.beforeExec cases ++
        [sub.idleExec cases])) := by
  have hidle : generateIdleCall cases sub.idle =
      (sub.idleWrites cases).map Statement.ofWrite ++ [sub.idleExec cases] := by
    unfold generateIdleCall SubApp.idleWrites SubApp.idleExec
    cases sub.idle with
    | none => rfl
    | some idle =>
      cases hg : idle.args.initGenerated
      · simp [hg]
      · simp [hg, RticTask.initValue, Statement.ofWrite]
  have hshared : (sub.shared.toList.map fun shared =>
      Statement.write (shared.nameUppercase cases) .sharedResources) =
      (sub.shared.toList.map fun shared =>
        (shared.nameUppercase cases, Value.sharedResources)).map Statement.ofWrite := by
    rw [List.map_map]
    rfl
  unfold generateSubApp beforeInit SubApp.closureRest SubApp.beforeExec SubApp.closureWrites
  rw [initSystem_eq, lateResourceTasks_eq, userWrites_eq, generatedTaskInitCalls_eq, hidle, hshared]
  simp only [List.map_append, List.append_assoc, List.cons_append, List.nil_append]

/-- The init function is called once. -/
theorem init_not_mem_beforeInit : Statement.init ∉ beforeInit := by decide

theorem init_not_mem_rest : Statement.init ∉ sub.closureRest cases ++ .closureEnd ::
    (sub.beforeExec cases ++ [sub.idleExec cases]) := by
  unfold SubApp.closureRest SubApp.beforeExec SubApp.idleExec
  cases sub.idle <;> simp [Statement.ofWrite]

/-- What some statements write. -/
def writesOf (stmts : List Statement) : List (Ident × Value) := stmts.filterMap Statement.writes

@[simp] theorem writesOf_append (stmts stmts' : List Statement) :
    writesOf (stmts ++ stmts') = writesOf stmts ++ writesOf stmts' := List.filterMap_append ..

@[simp] theorem writesOf_map (ws : List (Ident × Value)) :
    writesOf (ws.map Statement.ofWrite) = ws := by
  induction ws with
  | nil => rfl
  | cons w ws ih => exact congrArg (w :: ·) ih

@[simp] theorem writesOf_closureRest :
    writesOf (sub.closureRest cases) = sub.closureWrites cases := by
  unfold SubApp.closureRest
  rw [writesOf_append, writesOf_map]
  exact List.append_nil _

@[simp] theorem writesOf_beforeExec : writesOf (sub.beforeExec cases) = sub.idleWrites cases := by
  unfold SubApp.beforeExec
  rw [writesOf_append, writesOf_append, writesOf_map]
  have hpost : writesOf (sub.postInit.toList.map fun _ => Statement.userPostInit) = [] := by
    cases sub.postInit <;> rfl
  rw [hpost]
  rfl

/-- Each static has its place. -/
theorem writes_perm (cases : Cases) (sub : SubApp) :
    ((sub.closureWrites cases ++ sub.idleWrites cases).map Prod.fst).Perm (sub.handles cases) := by
  have hfilter := List.filter_append_perm (fun t : RticTask => !t.args.initGenerated)
    (sub.tasks ++ sub.idle.toList)
  simp only [Bool.not_not, List.filter_append, List.append_assoc] at hfilter
  have htasks := hfilter.map (·.nameUppercase cases)
  simp only [SubApp.closureWrites, SubApp.idleWrites, SubApp.handles, List.map_append, List.map_map,
    List.filter_append, List.append_assoc, Function.comp_def] at htasks ⊢
  exact htasks.append_left _

/-! ## The entry function with its blocks

`generateEntry` is given the pieces that are made elsewhere; with those of a sub-app it is the entry
function above. -/

/-- A value as it is written. -/
def Value.tokens : Value → String
  | .sharedResources => "__shared_resources"
  | .taskInit fieldName => s!"__task_inits.{fieldName}"
  | .unit taskTy => taskTy

/-- A statement that writes to a static; the handle of the shared struct is left open. -/
def writeTokens (handle : Ident) : Value → String
  | .sharedResources => "#shared_resources_handle.write(__shared_resources);"
  | value => s!"{handle}.write({value.tokens});"

/-- A statement that the entry function has itself, as it is written; the others are in `parts`. -/
def Statement.tokens (injections : MainInjections) (core : Nat) (parts : EntryParts) :
    Statement → List Stmt
  | .inject point => Scope.leaves (injections.get point core).flatten
  | .interruptFree | .closureEnd => []
  | .init =>
    if parts.hasShared then [.bind "__shared_resources", .bind "__task_inits"]
    else [.bind "__task_inits"]
  | .write handle value => [.other (writeTokens handle value)]
  | .backendPostInit => Scope.leaves parts.backendPostInit
  | .enableGlobalInterrupts => Scope.leaves parts.enableGlobalInterrupts
  | .userPostInit => Scope.leaves parts.userPostInitCall
  | .exec handle => [.other s!"{handle}.assume_init_mut().exec();"]
  | .idleLoop => [.other "loop"]

/-- The statement of a write in the tokens of the entry function. -/
def writeStmt (w : Ident × Value) : Stmt := .other (writeTokens w.1 w.2)

/-- The pieces of a sub-app; what the backend and the `#[post_init]` function are is left open. -/
def entryParts (cases : Cases) (sub : SubApp)
    (backendPostInit enableGlobalInterrupts userPostInitCall : List Stmt) : EntryParts where
  hasShared := sub.shared.isSome
  userTaskInitsWrites := (SubAnalysis.run sub).lateResourceTasks.map fun t =>
    writeStmt (cases.uppercaseIdent t, .taskInit (cases.snakecaseIdent t))
  generatedTaskInitCalls := (sub.tasks.filter fun t => t.args.initGenerated).map fun t =>
    writeStmt (t.nameUppercase cases, .unit t.name)
  backendPostInit := backendPostInit
  enableGlobalInterrupts := enableGlobalInterrupts
  userPostInitCall := if sub.postInit.isSome then userPostInitCall else []
  callIdleTask :=
    match sub.idle with
    | none => [.other "loop"]
    | some idle =>
      let write := if idle.args.initGenerated then
        [writeStmt (idle.nameUppercase cases, .unit idle.name)] else []
      [.block (write ++ [.other s!"{idle.nameUppercase cases}.assume_init_mut().exec();"])]

section Leaves

variable {injections : MainInjections} {core : Nat} {parts : EntryParts}

theorem leaves_block (stmts : List Stmt) :
    Scope.leaves [.block stmts] = Scope.leaves stmts := by
  simp [Scope.leaves, Scope.Stmt.leaves]

/-- A block that is left out if it is empty. -/
theorem leaves_optional (stmts : List Stmt) :
    Scope.leaves (if stmts.isEmpty then [] else [.block stmts]) = Scope.leaves stmts := by
  cases stmts with
  | nil => rfl
  | cons stmt stmts => exact leaves_block _

theorem leaves_writes (ws : List (Ident × Value)) :
    Scope.leaves (ws.map writeStmt) =
      (ws.map Statement.ofWrite).flatMap (Statement.tokens injections core parts) := by
  unfold writeStmt
  rw [List.flatMap_map, Scope.leaves_map_other, List.map_eq_flatMap]
  rfl

end Leaves

/-- **Both models of the entry function have the same statements in the same order.** -/
theorem leaves_generateEntry (cases : Cases) (sub : SubApp) (injections : MainInjections)
    (core : Nat) (backendPostInit enableGlobalInterrupts userPostInitCall : List Stmt) :
    let parts := entryParts cases sub backendPostInit enableGlobalInterrupts userPostInitCall
    Scope.leaves (generateEntry injections core parts) =
      (generateSubApp cases sub (SubAnalysis.run sub)).flatMap
        (Statement.tokens injections core parts) := by
  intro parts
  have hinit : Scope.leaves parts.initSystem =
      (initSystem cases sub (SubAnalysis.run sub)).flatMap
        (Statement.tokens injections core parts) := by
    have hcalls : generateTaskInitsWriteCalls cases (SubAnalysis.run sub).lateResourceTasks =
        ((SubAnalysis.run sub).lateResourceTasks.map fun t =>
          (cases.uppercaseIdent t, Value.taskInit (cases.snakecaseIdent t))).map
            Statement.ofWrite := by
      rw [List.map_map]
      rfl
    have hwrites : parts.userTaskInitsWrites = ((SubAnalysis.run sub).lateResourceTasks.map fun t =>
        (cases.uppercaseIdent t, Value.taskInit (cases.snakecaseIdent t))).map writeStmt := by
      rw [List.map_map]
      rfl
    rw [initSystem_eq, List.flatMap_append, hcalls, ← leaves_writes, ← hwrites]
    have hshared : parts.hasShared = sub.shared.isSome := rfl
    unfold EntryParts.initSystem
    cases hs : sub.shared with
    | none =>
      rw [hs] at hshared
      simp only [hshared, Option.isSome_none, Bool.false_eq_true, if_false, Scope.leaves,
        Scope.Stmt.leaves, leaves_optional]
      simp [Statement.tokens, hshared]
    | some shared =>
      rw [hs] at hshared
      simp only [hshared, Option.isSome_some, if_true, Scope.leaves_append, Scope.leaves,
        Scope.Stmt.leaves, leaves_optional]
      simp [Statement.tokens, hshared, writeTokens]
  have hgenerated : Scope.leaves parts.generatedTaskInitsBlock =
      (sub.tasks.filterMap (RticTask.taskInitCall cases)).flatMap
        (Statement.tokens injections core parts) := by
    have hvalues : parts.generatedTaskInitCalls = ((sub.tasks.filter fun t =>
        t.args.initGenerated).map fun t =>
          (t.nameUppercase cases, t.initValue cases)).map writeStmt := by
      rw [List.map_map]
      refine List.map_congr_left fun t ht => ?_
      simp [RticTask.initValue, (List.mem_filter.mp ht).2]
    rw [generatedTaskInitCalls_eq, ← leaves_writes, ← hvalues]
    exact leaves_optional _
  have hpost : Scope.leaves parts.userPostInitCall =
      (sub.postInit.toList.map fun _ => Statement.userPostInit).flatMap
        (Statement.tokens injections core parts) := by
    cases hp : sub.postInit with
    | none => simp [parts, entryParts, hp, Scope.leaves]
    | some _ => simp [Statement.tokens]
  have hidle : Scope.leaves parts.callIdleTask =
      (generateIdleCall cases sub.idle).flatMap (Statement.tokens injections core parts) := by
    cases hi : sub.idle with
    | none => simp [parts, entryParts, hi, generateIdleCall, Statement.tokens, Scope.leaves,
        Scope.Stmt.leaves]
    | some idle =>
      cases hg : idle.args.initGenerated <;>
        simp [parts, entryParts, hi, hg, generateIdleCall, Statement.tokens, Scope.leaves,
          Scope.Stmt.leaves, writeStmt]
  unfold generateEntry generateSubApp
  simp only [Scope.leaves_append, List.flatMap_append, hpost, hidle, hgenerated, hinit,
    leaves_block]
  simp only [List.flatMap_cons, List.flatMap_nil, Statement.tokens, List.nil_append,
    List.append_nil, List.append_assoc]

/-! ## The machine -/

namespace Boot

/-- What is done to the static instances. -/
inductive Event where
  | write (handle : Ident) (value : Value)
  | assumeInit (handle : Ident)

/-- The statements left, whether the closure of `#interrupt_free` has returned, and the log. -/
structure State where
  rest : List Statement
  returned : Bool
  log : List Event

/-- What may happen next. -/
inductive Action where
  /-- the entry function executes its next statement -/
  | next
  /-- a handler or a dispatcher calls the task's `exec`, or somebody calls the handler -/
  | exec (t : RticTask)
  /-- a task, idle or the `#[post_init]` function takes a lock on the shared struct -/
  | lock
  /-- the code that `#[init]` runs takes a lock on the shared struct -/
  | lockInInit
  /-- the code that `#[init]` runs calls the handler of a hardware task, which is a function -/
  | handlerInInit (t : RticTask)
  deriving DecidableEq

/-- Code of the `#[init]` function uses a static. -/
def Action.inInit : Action → Bool
  | .lockInInit | .handlerInInit _ => true
  | _ => false

/-- Note down that a static is used. -/
def State.use (s : State) (handle : Ident) : State :=
  { s with log := s.log ++ [.assumeInit handle] }

/-- The entry function executes its next statement. -/
def next (s : State) : Option State :=
  match s.rest with
  | [] | .idleLoop :: _ => none
  | .write handle value :: rest =>
    some { s with rest := rest, log := s.log ++ [.write handle value] }
  | .exec handle :: rest => some ({ s with rest := rest }.use handle)
  | .closureEnd :: rest => some { s with rest := rest, returned := true }
  | _ :: rest => some { s with rest := rest }

/-- The lock of a proxy uses the shared struct. -/
def lock (cases : Cases) (sub : SubApp) (s : State) : Option State :=
  match sub.shared with
  | some shared => if shared.resources = [] then none else some (s.use (shared.nameUppercase cases))
  | none => none

/-- The core while it boots and after that; handlers run at any time behind the closure. -/
def step (cases : Cases) (sub : SubApp) (s : State) : Action → Option State
  | .next => next s
  | .exec t => if s.returned ∧ t ∈ sub.tasks then some (s.use (t.nameUppercase cases)) else none
  | .lock => if s.returned then lock cases sub s else none
  | .lockInInit => if s.rest.head? = some .init then lock cases sub s else none
  | .handlerInInit t =>
    if s.rest.head? = some .init ∧ t ∈ sub.tasks ∧ t.args.binds.isSome then
      some (s.use (t.nameUppercase cases))
    else none

/-- The core from reset. -/
def machine (cases : Cases) (sub : SubApp) (analysis : SubAnalysis) : Machine State Action where
  init := { rest := generateSubApp cases sub analysis, returned := false, log := [] }
  step := step cases sub

/-! ## Writes and uses of the statics -/

/-- What an event writes. -/
def Event.writes : Event → Option (Ident × Value)
  | .write handle value => some (handle, value)
  | .assumeInit _ => none

/-- What has been written, in order. -/
def State.writes (s : State) : List (Ident × Value) := s.log.filterMap Event.writes

/-- How often a static has been written. -/
def State.numWrites (s : State) (handle : Ident) : Nat := (s.writes.map Prod.fst).count handle

/-- A static is used only if it was written before. -/
def Preceded (past : List Event) : Event → Prop
  | .assumeInit handle => ∃ value, Event.write handle value ∈ past
  | .write _ _ => True

/-- Every static is written once, and before it is used. -/
structure Initialised (cases : Cases) (sub : SubApp) (s : State) : Prop where
  once : ∀ handle, s.numWrites handle ≤ 1
  /-- when handlers may run, all are written but a generated idle -/
  returned : s.returned = true → ∀ handle ∈ sub.handles cases,
    (∀ idle, sub.idle = some idle → idle.args.initGenerated = true →
      handle ≠ idle.nameUppercase cases) → s.numWrites handle = 1
  /-- when idle executes, all are -/
  idle : s.rest = [] → ∀ handle ∈ sub.handles cases, s.numWrites handle = 1
  before : Every Preceded s.log
  sharedValue : ∀ shared, sub.shared = some shared → ∀ value,
    (shared.nameUppercase cases, value) ∈ s.writes → value = .sharedResources
  taskValue : ∀ t ∈ sub.tasks ++ sub.idle.toList, ∀ value,
    (t.nameUppercase cases, value) ∈ s.writes → value = t.initValue cases

/-- The `TaskInits` struct has one field for each task and idle that the user initializes. -/
structure TaskInitsComplete (cases : Cases) (sub : SubApp) (taskInits : TaskInitsStruct) :
    Prop where
  ident : taskInits.ident = "TaskInits"
  nodup : (taskInits.fields.map Prod.fst).Nodup
  fields : taskInits.fields =
    ((sub.tasks ++ sub.idle.toList).filter fun t => !t.args.initGenerated).map
      fun t => (cases.snakecaseIdent t.name, t.name)

/-! ## The invariant -/

variable {s s' : State} {a : Action}

/-- What was written is what the statements behind us write. -/
def Inv (cases : Cases) (sub : SubApp) (s : State) : Prop :=
  ∃ done, generateSubApp cases sub (SubAnalysis.run sub) = done ++ s.rest ∧
    s.writes = writesOf done ∧ (s.returned = true → Statement.closureEnd ∈ done)

theorem inv_init : Inv cases sub (machine cases sub (SubAnalysis.run sub)).init :=
  ⟨[], rfl, rfl, by rintro ⟨⟩⟩

@[simp] theorem use_writes (s : State) (handle : Ident) : (s.use handle).writes = s.writes := by
  simp [State.use, State.writes, Event.writes]

theorem Inv.use (h : Inv cases sub s) (handle : Ident) : Inv cases sub (s.use handle) := by
  obtain ⟨done, hdone, hwrites, hret⟩ := h
  exact ⟨done, hdone, (use_writes s handle).trans hwrites, hret⟩

theorem Inv.next (h : Inv cases sub s) (hs : Boot.next s = some s') : Inv cases sub s' := by
  obtain ⟨done, hdone, hwrites, hret⟩ := h
  -- the statement moves over to those behind us
  have hmove : ∀ stmt rest, s.rest = stmt :: rest →
      generateSubApp cases sub (SubAnalysis.run sub) = (done ++ [stmt]) ++ rest := by
    intro stmt rest hrest
    rw [hdone, hrest, List.append_assoc, List.singleton_append]
  have hmem : ∀ stmt, s.returned = true → Statement.closureEnd ∈ done ++ [stmt] :=
    fun stmt hr => List.mem_append_left _ (hret hr)
  unfold Boot.next at hs
  cases hrest : s.rest with
  | nil => rw [hrest] at hs; cases hs
  | cons stmt rest =>
    rw [hrest] at hs
    cases stmt with
    | idleLoop => cases hs
    | write handle value =>
      cases hs
      refine ⟨_, hmove _ _ hrest, ?_, hmem _⟩
      simp only [State.writes, List.filterMap_append, writesOf_append]
      exact congrArg (· ++ [(handle, value)]) hwrites
    | exec handle =>
      cases hs
      refine ⟨_, hmove _ _ hrest, ?_, hmem _⟩
      rw [use_writes, writesOf_append]
      exact hwrites.trans (List.append_nil _).symm
    | closureEnd =>
      cases hs
      refine ⟨_, hmove _ _ hrest, ?_, fun _ => List.mem_append_right _ (List.mem_singleton_self _)⟩
      rw [writesOf_append]
      exact hwrites.trans (List.append_nil _).symm
    | inject _ | interruptFree | init | backendPostInit | enableGlobalInterrupts | userPostInit =>
      cases hs
      refine ⟨_, hmove _ _ hrest, ?_, hmem _⟩
      rw [writesOf_append]
      exact hwrites.trans (List.append_nil _).symm

/-- What a lock does. -/
theorem lock_eq_some (hs : lock cases sub s = some s') :
    ∃ shared, sub.shared = some shared ∧ s' = s.use (shared.nameUppercase cases) := by
  unfold lock at hs
  split at hs
  next shared hshared =>
    split at hs <;> cases hs
    exact ⟨shared, hshared, rfl⟩
  · cases hs

/-- The statics that handlers and locks use: all but idle's. -/
def Used (cases : Cases) (sub : SubApp) (handle : Ident) : Prop :=
  (∃ shared, sub.shared = some shared ∧ handle = shared.nameUppercase cases) ∨
    ∃ t ∈ sub.tasks, handle = t.nameUppercase cases

/-- **What a step can do**: the entry function goes on, or a static is used. -/
theorem step_cases (hs : step cases sub s a = some s') :
    (a = .next ∧ Boot.next s = some s') ∨
      ∃ handle, Used cases sub handle ∧ s' = s.use handle ∧
        (a.inInit = false ∧ s.returned = true ∨
          a.inInit = true ∧ s.rest.head? = some .init) := by
  cases a with
  | next => exact Or.inl ⟨rfl, hs⟩
  | exec t =>
    simp only [step] at hs
    split at hs <;> cases hs
    next h => exact Or.inr ⟨_, Or.inr ⟨t, h.2, rfl⟩, rfl, Or.inl ⟨rfl, h.1⟩⟩
  | lock =>
    simp only [step] at hs
    split at hs
    next h =>
      obtain ⟨shared, hshared, rfl⟩ := lock_eq_some hs
      exact Or.inr ⟨_, Or.inl ⟨shared, hshared, rfl⟩, rfl, Or.inl ⟨rfl, h⟩⟩
    · cases hs
  | lockInInit =>
    simp only [step] at hs
    split at hs
    next h =>
      obtain ⟨shared, hshared, rfl⟩ := lock_eq_some hs
      exact Or.inr ⟨_, Or.inl ⟨shared, hshared, rfl⟩, rfl, Or.inr ⟨rfl, h⟩⟩
    · cases hs
  | handlerInInit t =>
    simp only [step] at hs
    split at hs <;> cases hs
    next h => exact Or.inr ⟨_, Or.inr ⟨t, h.2.1, rfl⟩, rfl, Or.inr ⟨rfl, h.1⟩⟩

theorem inv_step (h : Inv cases sub s) (hs : step cases sub s a = some s') : Inv cases sub s' := by
  rcases step_cases hs with ⟨-, hs⟩ | ⟨handle, -, rfl, -⟩
  · exact h.next hs
  · exact h.use handle

/-- The log only grows. -/
theorem step_log (hs : step cases sub s a = some s') : s.log <+: s'.log := by
  rcases step_cases hs with ⟨-, hs⟩ | ⟨handle, -, rfl, -⟩
  · unfold Boot.next at hs
    split at hs <;> cases hs
    all_goals first | exact List.prefix_refl _ | exact List.prefix_append _ _
  · exact List.prefix_append _ _

/-! ## Where the entry function is -/

/-- The call of `#[init]` comes before all writes. -/
theorem Inv.writes_of_init (h : Inv cases sub s) (hrest : s.rest.head? = some .init) :
    s.writes = [] := by
  obtain ⟨done, hdone, hwrites, -⟩ := h
  obtain ⟨rest, hrest⟩ := List.head?_eq_some_iff.mp hrest
  rw [generateSubApp_eq, hrest] at hdone
  obtain ⟨rfl, -, -⟩ :=
    (List.append_cons_inj_of_notMem init_not_mem_beforeInit init_not_mem_rest).mp hdone
  exact hwrites

/-- Behind the closure its writes are done. -/
theorem Inv.writes_of_returned (h : Inv cases sub s) (hret : s.returned = true) :
    sub.closureWrites cases <+: s.writes := by
  obtain ⟨done, hdone, hwrites, hmem⟩ := h
  obtain ⟨before, after, rfl⟩ := List.append_of_mem (hmem hret)
  have hshape : (beforeInit ++ .init :: sub.closureRest cases) ++
      .closureEnd :: (sub.beforeExec cases ++ [sub.idleExec cases]) =
      before ++ .closureEnd :: (after ++ s.rest) := by
    rw [generateSubApp_eq] at hdone
    simpa only [List.append_assoc, List.cons_append] using hdone
  have hfront : Statement.closureEnd ∉ beforeInit ++ .init :: sub.closureRest cases := by
    unfold SubApp.closureRest
    simp [beforeInit, Statement.ofWrite]
  have hback : Statement.closureEnd ∉ sub.beforeExec cases ++ [sub.idleExec cases] := by
    unfold SubApp.beforeExec SubApp.idleExec
    cases sub.idle <;> simp [Statement.ofWrite]
  obtain ⟨rfl, -, -⟩ := (List.append_cons_inj_of_notMem hfront hback).mp hshape
  refine ⟨writesOf (.closureEnd :: after), ?_⟩
  rw [hwrites, writesOf_append]
  exact congrArg (· ++ _) writesOf_closureRest.symm

/-- All that the entry function writes. -/
theorem writesOf_generateSubApp (cases : Cases) (sub : SubApp) :
    writesOf (generateSubApp cases sub (SubAnalysis.run sub)) =
      sub.closureWrites cases ++ sub.idleWrites cases := by
  have hexec : writesOf [sub.idleExec cases] = [] := by
    unfold SubApp.idleExec
    cases sub.idle <;> rfl
  have hcons : ∀ stmts, writesOf (.init :: stmts) = writesOf stmts := fun _ => rfl
  have hcons' : ∀ stmts, writesOf (.closureEnd :: stmts) = writesOf stmts := fun _ => rfl
  rw [generateSubApp_eq, writesOf_append, hcons, writesOf_append, hcons', writesOf_append, hexec,
    writesOf_closureRest, writesOf_beforeExec, List.append_nil]
  rfl

theorem Inv.writes_prefix (h : Inv cases sub s) :
    s.writes <+: sub.closureWrites cases ++ sub.idleWrites cases := by
  obtain ⟨done, hdone, hwrites, -⟩ := h
  refine ⟨writesOf s.rest, ?_⟩
  rw [hwrites, ← writesOf_generateSubApp, hdone, writesOf_append]

/-- In front of the idle call itself, and behind it, all writes are done. -/
theorem Inv.writes_of_nil (h : Inv cases sub s) (hrest : writesOf s.rest = []) :
    s.writes = sub.closureWrites cases ++ sub.idleWrites cases := by
  obtain ⟨done, hdone, hwrites, -⟩ := h
  rw [hwrites, ← writesOf_generateSubApp, hdone, writesOf_append, hrest, List.append_nil]

/-- The only `exec` of the entry function is the last statement, and it is idle's. -/
theorem Inv.exec_eq (h : Inv cases sub s) {handle : Ident} {rest : List Statement}
    (hrest : s.rest = .exec handle :: rest) :
    rest = [] ∧ ∃ idle, sub.idle = some idle ∧ handle = idle.nameUppercase cases := by
  obtain ⟨done, hdone, -, -⟩ := h
  have hshape : (beforeInit ++ .init :: (sub.closureRest cases ++ .closureEnd ::
      sub.beforeExec cases)) ++ sub.idleExec cases :: [] = done ++ .exec handle :: rest := by
    rw [generateSubApp_eq, hrest] at hdone
    simpa only [List.append_assoc, List.cons_append] using hdone
  have hfront : Statement.exec handle ∉ beforeInit ++ .init :: (sub.closureRest cases ++
      .closureEnd :: sub.beforeExec cases) := by
    unfold SubApp.closureRest SubApp.beforeExec
    simp [beforeInit, Statement.ofWrite]
  obtain ⟨-, hexec, rfl⟩ := (List.append_cons_inj_of_notMem hfront (List.not_mem_nil)).mp hshape
  refine ⟨rfl, ?_⟩
  unfold SubApp.idleExec at hexec
  cases hidle : sub.idle with
  | none => rw [hidle] at hexec; cases hexec
  | some idle => rw [hidle] at hexec; cases hexec; exact ⟨idle, rfl, rfl⟩

/-! ## Where each static is written -/

theorem task_mem_writes {t : RticTask} (ht : t ∈ sub.tasks) :
    (t.nameUppercase cases, t.initValue cases) ∈ sub.closureWrites cases := by
  unfold SubApp.closureWrites
  cases hg : t.args.initGenerated with
  | true =>
    refine List.mem_append_right _ (List.mem_map.mpr ⟨t, List.mem_filter.mpr ⟨ht, hg⟩, rfl⟩)
  | false =>
    refine List.mem_append_left _ (List.mem_append_right _ (List.mem_map.mpr ⟨t, ?_, rfl⟩))
    exact List.mem_filter.mpr ⟨List.mem_append_left _ ht, by simp [hg]⟩

theorem idle_mem_writes {idle : RticTask} (hidle : sub.idle = some idle) :
    (idle.nameUppercase cases, idle.initValue cases) ∈
      if idle.args.initGenerated then sub.idleWrites cases else sub.closureWrites cases := by
  cases hg : idle.args.initGenerated with
  | true =>
    refine List.mem_map.mpr ⟨idle, List.mem_filter.mpr ⟨?_, hg⟩, rfl⟩
    simp [hidle]
  | false =>
    refine List.mem_append_left _ (List.mem_append_right _ (List.mem_map.mpr ⟨idle, ?_, rfl⟩))
    exact List.mem_filter.mpr ⟨by simp [hidle], by simp [hg]⟩

theorem shared_mem_writes {shared : SharedResources} (hshared : sub.shared = some shared) :
    (shared.nameUppercase cases, Value.sharedResources) ∈ sub.closureWrites cases := by
  refine List.mem_append_left _ (List.mem_append_left _ (List.mem_map.mpr ⟨shared, ?_, rfl⟩))
  simp [hshared]

theorem Used.mem_writes {handle : Ident} (h : Used cases sub handle) :
    ∃ value, (handle, value) ∈ sub.closureWrites cases := by
  rcases h with ⟨shared, hshared, rfl⟩ | ⟨t, ht, rfl⟩
  · exact ⟨_, shared_mem_writes hshared⟩
  · exact ⟨_, task_mem_writes ht⟩

theorem mem_writes {handle : Ident} {value : Value} :
    (handle, value) ∈ s.writes ↔ Event.write handle value ∈ s.log := by
  unfold State.writes
  rw [List.mem_filterMap]
  constructor
  · rintro ⟨e, he, hw⟩
    cases e with
    | write handle' value' => cases hw; exact he
    | assumeInit _ => cases hw
  · exact fun h => ⟨_, h, rfl⟩

/-! ## The uses -/

/-- Without the code of `#[init]` every use comes behind its write. -/
theorem before_step (h : Inv cases sub s) (ha : a.inInit = false) (hb : Every Preceded s.log)
    (hs : step cases sub s a = some s') : Every Preceded s'.log := by
  rcases step_cases hs with ⟨-, hs⟩ | ⟨handle, hused, rfl, ⟨-, hret⟩ | ⟨hinit, -⟩⟩
  · unfold Boot.next at hs
    split at hs <;> cases hs
    next handle value rest hrest => exact hb.concat trivial
    next handle rest hrest =>
      refine hb.concat ?_
      obtain ⟨rfl, idle, hidle, rfl⟩ := h.exec_eq hrest
      have hall := h.writes_of_nil (by rw [hrest]; rfl)
      have hmem := @idle_mem_writes cases sub idle hidle
      refine ⟨idle.initValue cases, mem_writes.mp ?_⟩
      rw [hall]
      split at hmem
      · exact List.mem_append_right _ hmem
      · exact List.mem_append_left _ hmem
    all_goals exact hb
  · obtain ⟨value, hvalue⟩ := hused.mem_writes
    exact hb.concat ⟨value, mem_writes.mp ((h.writes_of_returned hret).subset hvalue)⟩
  · rw [ha] at hinit
    cases hinit

/-- A use by the code of `#[init]` comes before its write, and stays in the log. -/
theorem not_before_step (h : Inv cases sub s) (ha : a.inInit = true)
    (hs : step cases sub s a = some s') : ¬ Every Preceded s'.log := by
  intro hb
  rcases step_cases hs with ⟨rfl, -⟩ | ⟨handle, -, rfl, ⟨hinit, -⟩ | ⟨-, hrest⟩⟩
  · cases ha
  · rw [ha] at hinit
    cases hinit
  · obtain ⟨value, hvalue⟩ := (Every.concat_iff.mp hb).2
    have hmem := mem_writes.mpr hvalue
    rw [h.writes_of_init hrest] at hmem
    cases hmem

theorem exec_log {as : List Action}
    (h : (machine cases sub (SubAnalysis.run sub)).exec s as = some s') : s.log <+: s'.log := by
  refine Machine.exec_invariant (P := fun t => s.log <+: t.log) ?_ (List.prefix_refl _) h
  exact fun _ _ _ hp hs => hp.trans (step_log hs)

/-- **Every use is preceded by its write exactly if the code of `#[init]` uses nothing.** -/
theorem before_iff {as : List Action} (h : Inv cases sub s) (hb : Every Preceded s.log)
    (hs : (machine cases sub (SubAnalysis.run sub)).exec s as = some s') :
    Every Preceded s'.log ↔ ∀ a ∈ as, a.inInit = false := by
  induction as generalizing s with
  | nil =>
    cases hs
    exact ⟨fun _ _ ha => absurd ha List.not_mem_nil, fun _ => hb⟩
  | cons a as ih =>
    obtain ⟨m, hm, hs⟩ := ((machine cases sub _).exec_cons_eq_some).mp hs
    rw [List.forall_mem_cons]
    cases ha : a.inInit with
    | false =>
      rw [ih (inv_step h hm) (before_step h ha hb hm) hs]
      exact (and_iff_right rfl).symm
    | true =>
      refine ⟨fun hall => ?_, by rintro ⟨⟨⟩, -⟩⟩
      exact absurd (hall.of_prefix (exec_log hs)) (not_before_step h ha hm)

/-! ## The statics in every run -/

/-- With distinct names a static has one value. -/
theorem value_unique {ws : List (Ident × Value)} (hnodup : (ws.map Prod.fst).Nodup) {handle : Ident}
    {v v' : Value} (h : (handle, v) ∈ ws) (h' : (handle, v') ∈ ws) : v' = v :=
  congrArg Prod.snd (List.inj_on_of_nodup_map hnodup h' h rfl)

theorem Inv.initialised (h : Inv cases sub s) (hnodup : (sub.handles cases).Nodup)
    (hb : Every Preceded s.log) : Initialised cases sub s := by
  have hall : ((sub.closureWrites cases ++ sub.idleWrites cases).map Prod.fst).Nodup :=
    (writes_perm cases sub).nodup_iff.mpr hnodup
  have hpre := h.writes_prefix
  have hnodup' : (s.writes.map Prod.fst).Nodup := hall.sublist (hpre.sublist.map _)
  have hone : ∀ handle, handle ∈ s.writes.map Prod.fst → s.numWrites handle = 1 :=
    fun handle hmem => List.count_eq_one_of_mem hnodup' hmem
  have hmem : ∀ handle, handle ∈ sub.handles cases →
      handle ∈ (sub.closureWrites cases ++ sub.idleWrites cases).map Prod.fst :=
    fun handle => (writes_perm cases sub).mem_iff.mpr
  refine
    { once := fun handle => List.nodup_iff_count_le_one.mp hnodup' handle
      returned := ?_
      idle := ?_
      before := hb
      sharedValue := ?_
      taskValue := ?_ }
  · intro hret handle hh hidle
    refine hone handle ?_
    rcases List.mem_append.mp (List.map_append ▸ hmem handle hh) with hc | hi
    · exact ((h.writes_of_returned hret).sublist.map _).subset hc
    · obtain ⟨w, hw, rfl⟩ := List.mem_map.mp hi
      obtain ⟨idle, hidle', rfl⟩ := List.mem_map.mp hw
      obtain ⟨hsome, hg⟩ := List.mem_filter.mp hidle'
      exact absurd rfl (hidle idle (by simpa using hsome) hg)
  · intro hrest handle hh
    refine hone handle ?_
    rw [h.writes_of_nil (by rw [hrest]; rfl)]
    exact hmem handle hh
  · intro shared hshared value hvalue
    refine value_unique hall ?_ (hpre.subset hvalue)
    exact List.mem_append_left _ (shared_mem_writes hshared)
  · intro t ht value hvalue
    refine value_unique hall ?_ (hpre.subset hvalue)
    rcases List.mem_append.mp ht with ht | ht
    · exact List.mem_append_left _ (task_mem_writes ht)
    · have hmem := @idle_mem_writes cases sub t (by simpa using ht)
      split at hmem
      · exact List.mem_append_right _ hmem
      · exact List.mem_append_left _ hmem

end Boot

/-- Two fields of the same name would be written to the same static. -/
theorem taskInits_complete (hnodup : (sub.handles cases).Nodup) :
    Boot.TaskInitsComplete cases sub
      (generateTaskInitsStruct cases "TaskInits" (SubAnalysis.run sub).lateResourceTasks) := by
  have hfields : (generateTaskInitsStruct cases "TaskInits"
      (SubAnalysis.run sub).lateResourceTasks).fields =
      ((sub.tasks ++ sub.idle.toList).filter fun t => !t.args.initGenerated).map
        fun t => (cases.snakecaseIdent t.name, t.name) := by
    unfold generateTaskInitsStruct
    rw [lateResourceTasks_eq, List.map_map]
    rfl
  refine ⟨rfl, ?_, hfields⟩
  rw [hfields, List.map_map]
  have htasks : (((sub.tasks ++ sub.idle.toList).filter fun t => !t.args.initGenerated).map
      fun t => t.nameUppercase cases).Nodup :=
    (List.nodup_append.mp hnodup).2.1.sublist (List.filter_sublist.map _)
  refine List.Nodup.of_map cases.toUppercase ?_
  rw [List.map_map]
  exact htasks

/-- An app has a sub-app for each core. -/
theorem App.parse_length {args : AppArgs} {items : List Item} {app : App}
    (h : App.parse args items = .ok app) : app.subApps.length = args.cores := by
  unfold App.parse at h
  obtain ⟨_, -, h⟩ := bind_eq_ok.mp h
  obtain ⟨_, -, h⟩ := bind_eq_ok.mp h
  obtain ⟨_, -, h⟩ := bind_eq_ok.mp h
  obtain ⟨_, -, h⟩ := bind_eq_ok.mp h
  obtain ⟨_, -, h⟩ := bind_eq_ok.mp h
  obtain ⟨_, -, h⟩ := bind_eq_ok.mp h
  obtain ⟨subApps, hsubs, h⟩ := bind_eq_ok.mp h
  cases h
  rw [← (mapM_forall₂ hsubs).length_eq, List.length_range]

/-- `CodeGen` is given each sub-app with its own analysis. -/
theorem Analysis.run_zip {app app' : App} {analysis : Analysis}
    (h : Analysis.run app = .ok (app', analysis)) {sub : SubApp} {subAnalysis : SubAnalysis}
    (hsub : (sub, subAnalysis) ∈ app'.subApps.zip analysis.subAnalysis) :
    subAnalysis = SubAnalysis.run sub := by
  unfold Analysis.run at h
  obtain ⟨subApps, -, h⟩ := bind_eq_ok.mp h
  cases h
  rw [← List.map_prod_left_eq_zip] at hsub
  obtain ⟨_, -, heq⟩ := List.mem_map.mp hsub
  cases heq
  rfl

/--
**Nothing is used before it is initialised, unless by the code of `#[init]`.** For an accepted app
with one core and distinct static names, every run of its entry function with handlers at any time
behind the closure writes every static once, with its own value, and before each of its uses,
exactly if the code that `#[init]` runs takes no lock and calls no handler. `TaskInits` has its
fields either way.
-/
theorem statics_initialised_iff {cases : Cases} {args : AppArgs} {items : List Item}
    {app app' : App} {analysis : Analysis} (hparse : App.parse args items = .ok app)
    (hcores : args.cores = 1) (hrun : Analysis.run app = .ok (app', analysis)) {sub : SubApp}
    {subAnalysis : SubAnalysis}
    (hsub : (sub, subAnalysis) ∈ app'.subApps.zip analysis.subAnalysis)
    (hnames : (sub.handles cases).Nodup) {as : List Boot.Action} {s : Boot.State}
    (hs : (Boot.machine cases sub subAnalysis).exec (Boot.machine cases sub subAnalysis).init as =
      some s) :
    Boot.TaskInitsComplete cases sub (generateTaskInitsStruct cases
        (taskInitsIdent app'.subApps.length sub.core) subAnalysis.lateResourceTasks) ∧
      Boot.Initialised cases sub s ↔ ∀ a ∈ as, a.inInit = false := by
  obtain rfl := Analysis.run_zip hrun hsub
  have hone : app'.subApps.length = 1 := by
    rw [← (Analysis.run_subApps hrun).length_eq, App.parse_length hparse, hcores]
  have hinv : Boot.Inv cases sub s := by
    refine Machine.exec_invariant (P := Boot.Inv cases sub) ?_ Boot.inv_init hs
    exact fun _ _ _ hi hs => Boot.inv_step hi hs
  rw [← Boot.before_iff Boot.inv_init Every.nil hs, hone]
  constructor
  · exact fun h => h.2.before
  · exact fun hb => ⟨taskInits_complete hnames, hinv.initialised hnames hb⟩

/-- The case conversions of identifiers in camel case. -/
def camelCases : Cases where
  toSnakeCase ident :=
    String.ofList ((ident.toList.flatMap fun c =>
      if c.isUpper then ['_', c.toLower] else [c]).dropWhile (· = '_'))
  toUppercase ident := String.ofList (ident.toList.map Char.toUpper)

/-- A shared counter, a task of the user, one of the framework and an idle that is generated. -/
def bootItems : List Item := [
  .shared "Shared" none [some "counter"],
  .init "system_init" none,
  .idle "MyIdle" { init := some "generated" },
  .task "UartTask" { binds := some "UART", shared := some ["counter"] },
  .task "Tick" { binds := some "SysTick", shared := some ["counter"], init := some "generated" }]

def bootSub (ceiling : Nat) : SubApp where
  core := 0
  shared := some ⟨0, "Shared", [⟨"counter", ceiling⟩]⟩
  init := ⟨0, "system_init"⟩
  postInit := none
  idle := some ⟨⟨none, 1, [], 0, idleTraitTy, true⟩, "MyIdle"⟩
  tasks := [⟨⟨some "UART", 1, ["counter"], 0, hwtTraitTy, false⟩, "UartTask"⟩,
    ⟨⟨some "SysTick", 1, ["counter"], 0, hwtTraitTy, true⟩, "Tick"⟩]

theorem bootSub_handles (ceiling : Nat) :
    ((bootSub ceiling).handles camelCases).Nodup := by
  show [camelCases.uppercaseIdent "Shared", camelCases.uppercaseIdent "UartTask",
    camelCases.uppercaseIdent "Tick", camelCases.uppercaseIdent "MyIdle"].Nodup
  decide +kernel

theorem bootItems_accepted :
    App.parse ⟨["mypac"], 1⟩ bootItems = .ok ⟨⟨["mypac"], 1⟩, [bootSub 0]⟩ ∧
      ∃ analysis, Analysis.run ⟨⟨["mypac"], 1⟩, [bootSub 0]⟩ =
          .ok (⟨⟨["mypac"], 1⟩, [bootSub 1]⟩, analysis) ∧
        (bootSub 1, SubAnalysis.run (bootSub 1)) ∈ [bootSub 1].zip analysis.subAnalysis :=
  ⟨rfl, _, rfl, List.mem_cons_self⟩

/-- The core of that app. -/
abbrev bootMachine : Machine Boot.State Boot.Action :=
  Boot.machine camelCases (bootSub 1) (SubAnalysis.run (bootSub 1))

/-- Boot to the end of the closure, where a handler interrupts, and on to idle. -/
def bootToIdle : List Boot.Action :=
  List.replicate 10 .next ++
    [.exec ⟨⟨some "UART", 1, ["counter"], 0, hwtTraitTy, false⟩, "UartTask"⟩, .lock] ++
    List.replicate 4 .next

theorem statics_initialised_iff_boot :
    ∃ s, bootMachine.exec bootMachine.init bootToIdle = some s ∧ s.rest = [] ∧
      Boot.Initialised camelCases (bootSub 1) s := by
  have hboot : ∃ s, bootMachine.exec bootMachine.init bootToIdle = some s ∧ s.rest = [] :=
    ⟨_, rfl, rfl⟩
  obtain ⟨s, hs, hrest⟩ := hboot
  obtain ⟨hparse, analysis, hrun, hsub⟩ := bootItems_accepted
  have hno : ∀ a ∈ bootToIdle, a.inInit = false := by decide
  refine ⟨s, hs, hrest, ?_⟩
  exact ((statics_initialised_iff hparse rfl hrun hsub (bootSub_handles 1) hs).mpr hno).2

/-- `Tick.shared().counter.lock(..)` in `#[init]` uses the shared struct before it is written. -/
theorem lock_in_init_uninitialised :
    App.parse ⟨["mypac"], 1⟩ bootItems = .ok ⟨⟨["mypac"], 1⟩, [bootSub 0]⟩ ∧
      (∃ analysis, Analysis.run ⟨⟨["mypac"], 1⟩, [bootSub 0]⟩ =
        .ok (⟨⟨["mypac"], 1⟩, [bootSub 1]⟩, analysis)) ∧
      ((bootSub 1).handles camelCases).Nodup ∧
      ∃ s, bootMachine.exec bootMachine.init [.next, .next, .next, .lockInInit] = some s ∧
        ¬ Boot.Initialised camelCases (bootSub 1) s := by
  obtain ⟨hparse, analysis, hrun, -⟩ := bootItems_accepted
  refine ⟨hparse, ⟨analysis, hrun⟩, bootSub_handles 1, _, rfl, fun h => ?_⟩
  obtain ⟨value, hvalue⟩ := h.before [] _ (List.prefix_refl _)
  cases hvalue

end Rticx.Core
