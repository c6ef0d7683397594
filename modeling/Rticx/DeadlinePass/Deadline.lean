import Rticx.Core.Source
import Rticx.Lib.Rank
import Rticx.SwPass.Params

/-!
# Deadlines and priorities

`rticx-deadline-pass`: the deadline of a task is replaced by its rank among the deadlines of the
app, under the name of a priority. The pass ranks the shortest deadline first, the core pass takes
the highest priority for the most urgent one.
-/

namespace Rticx.DeadlinePass

open Rticx.Core Rticx.Core.Source Rticx.Lib Rticx.Lib.Except

/-! ## The pass -/

structure RticTask where
  params : RticAttr
  /-- without the attribute that `params` replaces -/
  taskStruct : ItemStruct
  deadline : Option Nat

/-- The `deadline` argument, when it is a literal that fits. -/
def explicitDeadline (params : RticAttr) : Option Nat :=
  match params.getExpr "deadline" with
  | some (.int value) => if value < 2 ^ 32 then some value else none
  | _ => none

/-- `RticTask::from_struct` -/
def RticTask.fromStruct (taskStruct : ItemStruct × Attribute) : Except String RticTask := do
  let params ← fromMeta taskStruct.2
  match params.getExpr "priority" with
  | some (.int _) =>
    .error ("'priority' found, please use 'deadlines' only or compile with " ++
      "--no-default-features.")
  | _ => return {
      params := params
      taskStruct := taskStruct.1
      deadline := explicitDeadline params }

structure App where
  tasks : List RticTask
  restOfCode : List ModuleItem

/-- A struct with an attribute of this name, without the attribute. -/
def structWithAttr (strct : ItemStruct) (attrName : Ident) : Option (ItemStruct × Attribute) :=
  (takeAttr attrName strct.attrs).map fun taken => ({ strct with attrs := taken.2 }, taken.1)

/-- The struct of a task, of hardware or software. -/
def taskStruct? : ModuleItem → Option (ItemStruct × Attribute)
  | .strct itemStruct => (structWithAttr itemStruct "task").or (structWithAttr itemStruct "sw_task")
  | _ => none

/-- `App::parse` -/
def App.parse (items : List ModuleItem) : Except String App := do
  let tasks ← (items.filterMap taskStruct?).mapM RticTask.fromStruct
  return { tasks := tasks, restOfCode := items.filter fun item => (taskStruct? item).isNone }

/-- The deadlines of the app in ascending order, each once. -/
def sortedDeadlines (tasks : List RticTask) : List Nat :=
  Rank.dedup ((tasks.map fun task => task.deadline.getD (2 ^ 32 - 1)).insertionSort (· ≤ ·))

/-- `position(..).unwrap()` and `pos as u32 + 1` -/
def rank (deadlines : List Nat) (deadline : Nat) : Except String Nat :=
  match deadlines.idxOf? deadline with
  | none => .error "called `Option::unwrap()` on a `None` value"
  | some pos =>
    if pos % 2 ^ 32 + 1 < 2 ^ 32 then .ok (pos % 2 ^ 32 + 1)
    else .error "attempt to add with overflow"

/-- The last loop of `analyze`. -/
def RticTask.analyze (deadlines : List Nat) (task : RticTask) : Except String RticTask :=
  match task.deadline with
  | none => .ok task
  | some deadline => (rank deadlines deadline).map fun r => { task with deadline := some r }

/-- `DeadlineToPriorityPass::analyze` -/
def analyze (maxPriority : Nat) (tasks : List RticTask) : Except String (List RticTask) :=
  let deadlines := sortedDeadlines tasks
  if maxPriority < deadlines.length % 2 ^ 16 then
    .error (s!"Exceeded number of priorities for this platform ({maxPriority}), please coerce " ++
      "deadlines manually.")
  else tasks.mapM (RticTask.analyze deadlines)

/-- The loop of `run_pass`: the rank becomes the priority. -/
def RticTask.convert (task : RticTask) : RticTask :=
  match task.deadline with
  | some deadline =>
    { task with params := { task.params with
        elements := (task.params.elements.erase "deadline").insert "priority" (.int deadline) } }
  | none => task

/-- The struct with its new attribute in `CodeGen::run`. -/
def RticTask.generate (task : RticTask) : ModuleItem :=
  .strct { task.taskStruct with
    attrs := ⟨[task.params.name], .list task.params.argsTokens⟩ :: task.taskStruct.attrs }

/-- `run_pass`, up to the tasks that it generates code for. -/
def runTasks (maxPriority : Nat) (app : App) : Except String (List RticTask) :=
  (analyze maxPriority app.tasks).map (List.map RticTask.convert)

/-- `DeadlineToPriorityPass::run_pass` -/
def runPass (maxPriority : Nat) (items : List ModuleItem) : Except String (List ModuleItem) := do
  let app ← App.parse items
  let tasks ← runTasks maxPriority app
  return app.restOfCode ++ tasks.map RticTask.generate

/-! ## The priority of a task in the core pass -/

/-- What the core pass reads off an attribute, at once or behind the software pass. The maps are
printed in any order. -/
inductive CoreReads (params : RticAttr) : TaskArgs → Prop where
  | task {tokens : List (Ident × Option Expr)} {args : TaskArgs} (hname : params.name = "task")
      (htokens : tokens.Perm params.argsTokens)
      (hargs : taskArgs ⟨["task"], .list tokens⟩ = .ok args) : CoreReads params args
  | swTask {tokens tokens' : List (Ident × Option Expr)} {swParams : SwPass.TaskParams}
      {args : TaskArgs} (hname : params.name = "sw_task") (htokens : tokens.Perm params.argsTokens)
      (hparams : SwPass.TaskParams.fromAttr (RticAttr.parseFromTokens tokens "sw_task") =
        .ok swParams)
      (htokens' : tokens'.Perm (SwPass.intoTaskAttr (RticAttr.parseFromTokens tokens "sw_task")
        "RticSwTask").argsTokens)
      (hargs : taskArgs ⟨["task"], .list tokens'⟩ = .ok args) : CoreReads params args

/-- A priority in the attribute is the priority of the task. -/
theorem CoreReads.priority_eq {params : RticAttr} {args : TaskArgs} (h : CoreReads params args)
    {priority : Nat} (hpriority : params.getExpr "priority" = some (.int priority)) :
    args.priority = priority := by
  cases h with
  | @task tokens _ hname htokens hargs =>
    have hread := (SwPass.fromAttr_priority_core
      (show TaskArgs.fromAttr (RticAttr.parseFromTokens tokens "task") = .ok args from hargs)).1
    rw [hread, RticAttr.intValue, RticAttr.getExpr_parseFromTokens htokens, hpriority]
    rfl
  | @swTask tokens tokens' _ _ hname htokens hparams htokens' hargs =>
    have hread := (SwPass.fromAttr_priority_core
      (show TaskArgs.fromAttr (RticAttr.parseFromTokens tokens' "task") = .ok args from hargs)).1
    rw [hread, RticAttr.intValue, RticAttr.getExpr_parseFromTokens htokens',
      SwPass.getExpr_intoTaskAttr (by decide) (by decide) (by decide),
      RticAttr.getExpr_parseFromTokens htokens, hpriority]
    rfl

/-! ## Ranks -/

theorem sortedDeadlines_pairwise (tasks : List RticTask) :
    (sortedDeadlines tasks).Pairwise (· < ·) :=
  Rank.dedup_pairwise (List.pairwise_insertionSort _ _)

theorem mem_sortedDeadlines {tasks : List RticTask} {task : RticTask} (htask : task ∈ tasks)
    {deadline : Nat} (hdeadline : task.deadline = some deadline) :
    deadline ∈ sortedDeadlines tasks := by
  refine Rank.mem_dedup.mpr ((List.mem_insertionSort _).mpr (List.mem_map.mpr ⟨task, htask, ?_⟩))
  rw [hdeadline]
  rfl

/-- The search succeeds, since every deadline is in the list. -/
theorem rank_of_mem {deadlines : List Nat} {deadline : Nat} (hmem : deadline ∈ deadlines) :
    rank deadlines deadline =
      if deadlines.idxOf deadline % 2 ^ 32 + 1 < 2 ^ 32 then
        .ok (deadlines.idxOf deadline % 2 ^ 32 + 1)
      else .error "attempt to add with overflow" := by
  rw [rank, Rank.idxOf?_of_mem hmem]

/-- The rank of a deadline that is a `u32`. -/
theorem rank_eq_ok {tasks : List RticTask} {deadline r : Nat}
    (hmem : deadline ∈ sortedDeadlines tasks) (hlt : deadline < 2 ^ 32)
    (h : rank (sortedDeadlines tasks) deadline = .ok r) :
    r = (sortedDeadlines tasks).idxOf deadline + 1 := by
  have hle := Rank.idxOf_le (sortedDeadlines_pairwise tasks) hmem
  rw [rank_of_mem hmem, Nat.mod_eq_of_lt (Nat.lt_of_le_of_lt hle hlt)] at h
  split at h
  · cases h
    rfl
  · cases h

theorem deadline_lt {items : List ModuleItem} {app : App} (h : App.parse items = .ok app) :
    ∀ t ∈ app.tasks, ∀ deadline, t.deadline = some deadline → deadline < 2 ^ 32 := by
  obtain ⟨tasks, htasks, h⟩ := bind_eq_ok.mp h
  cases h
  intro t ht deadline hdeadline
  obtain ⟨taskStruct, -, hstruct⟩ := mapM_ok htasks t ht
  obtain ⟨params, -, hstruct⟩ := bind_eq_ok.mp hstruct
  split at hstruct
  · cases hstruct
  · cases hstruct
    unfold explicitDeadline at hdeadline
    split at hdeadline
    · split at hdeadline
      · cases hdeadline
        assumption
      · cases hdeadline
    · cases hdeadline

/-- A task before and after the pass. -/
theorem runTasks_forall₂ {maxPriority : Nat} {app : App} {tasks' : List RticTask}
    (h : runTasks maxPriority app = .ok tasks') :
    List.Forall₂ (fun t t' => ∃ u, t.analyze (sortedDeadlines app.tasks) = .ok u ∧ u.convert = t')
      app.tasks tasks' := by
  obtain ⟨us, hus, rfl⟩ := map_eq_ok.mp h
  unfold analyze at hus
  dsimp only at hus
  split at hus
  · cases hus
  · rw [List.forall₂_map_right_iff]
    exact (mapM_forall₂ hus).imp fun t u ht => ⟨u, ht, rfl⟩

/-- **The core priority of a task is the rank of its deadline.** -/
theorem priority_eq_rank {maxPriority : Nat} {items : List ModuleItem} {app : App}
    {tasks' : List RticTask} (hparse : App.parse items = .ok app)
    (hrun : runTasks maxPriority app = .ok tasks') {t t' : RticTask}
    (hmem : (t, t') ∈ app.tasks.zip tasks') {deadline : Nat} (hdeadline : t.deadline = some deadline)
    {args : TaskArgs} (hread : CoreReads t'.params args) :
    args.priority = (sortedDeadlines app.tasks).idxOf deadline + 1 := by
  have ht := (List.of_mem_zip hmem).1
  obtain ⟨u, hu, rfl⟩ := List.forall₂_zip (runTasks_forall₂ hrun) hmem
  unfold RticTask.analyze at hu
  rw [hdeadline] at hu
  obtain ⟨r, hr, rfl⟩ := map_eq_ok.mp hu
  have hpriority : (RticTask.convert { t with deadline := some r }).params.getExpr "priority" =
    some (.int r) := AList.lookup_insert _
  rw [hread.priority_eq hpriority]
  exact rank_eq_ok (mem_sortedDeadlines ht hdeadline) (deadline_lt hparse t ht deadline hdeadline) hr

/-! ## The order of the priorities -/

/-- The task with the shorter deadline has the higher core priority. -/
def DeadlineMonotonic (tasks tasks' : List RticTask) : Prop :=
  ∀ t t', (t, t') ∈ tasks.zip tasks' → ∀ u u', (u, u') ∈ tasks.zip tasks' →
    ∀ d₁ d₂, t.deadline = some d₁ → u.deadline = some d₂ → d₁ < d₂ →
      ∀ a₁ a₂, CoreReads t'.params a₁ → CoreReads u'.params a₂ → a₂.priority < a₁.priority

/-- The order is the other way round: the shorter deadline has the lower core priority. -/
theorem priority_lt_of_deadline_lt {maxPriority : Nat} {items : List ModuleItem} {app : App}
    {tasks' : List RticTask} (hparse : App.parse items = .ok app)
    (hrun : runTasks maxPriority app = .ok tasks') {t t' u u' : RticTask}
    (ht : (t, t') ∈ app.tasks.zip tasks') (hu : (u, u') ∈ app.tasks.zip tasks') {d₁ d₂ : Nat}
    (hd₁ : t.deadline = some d₁) (hd₂ : u.deadline = some d₂) (hlt : d₁ < d₂) {a₁ a₂ : TaskArgs}
    (ha₁ : CoreReads t'.params a₁) (ha₂ : CoreReads u'.params a₂) : a₁.priority < a₂.priority := by
  rw [priority_eq_rank hparse hrun ht hd₁ ha₁, priority_eq_rank hparse hrun hu hd₂ ha₂]
  refine Nat.add_lt_add_right (Rank.idxOf_lt_idxOf (sortedDeadlines_pairwise _) ?_ ?_ hlt) 1
  · exact mem_sortedDeadlines (List.of_mem_zip ht).1 hd₁
  · exact mem_sortedDeadlines (List.of_mem_zip hu).1 hd₂

/-- **The priorities are deadline monotonic exactly when no two tasks have different deadlines.**
-/
theorem deadline_monotonic_iff {maxPriority : Nat} {items : List ModuleItem} {app : App}
    {tasks' : List RticTask} (hparse : App.parse items = .ok app)
    (hrun : runTasks maxPriority app = .ok tasks')
    (hread : ∀ t' ∈ tasks', ∃ args, CoreReads t'.params args) :
    DeadlineMonotonic app.tasks tasks' ↔ ∀ t ∈ app.tasks, ∀ u ∈ app.tasks,
      ∀ d₁ d₂, t.deadline = some d₁ → u.deadline = some d₂ → d₁ = d₂ := by
  have hlength := (runTasks_forall₂ hrun).length_eq
  have hpair : ∀ t ∈ app.tasks, ∃ t', (t, t') ∈ app.tasks.zip tasks' := by
    intro t ht
    obtain ⟨i, hi, rfl⟩ := List.getElem_of_mem ht
    exact ⟨tasks'[i], List.mem_iff_getElem.mpr ⟨i, by simpa using ⟨hi, hlength ▸ hi⟩, by simp⟩⟩
  constructor
  · intro hmono
    have hnot : ∀ t ∈ app.tasks, ∀ u ∈ app.tasks,
        ∀ d₁ d₂, t.deadline = some d₁ → u.deadline = some d₂ → ¬ d₁ < d₂ := by
      intro t ht u hu d₁ d₂ hd₁ hd₂ hlt
      obtain ⟨t', ht'⟩ := hpair t ht
      obtain ⟨u', hu'⟩ := hpair u hu
      obtain ⟨a₁, ha₁⟩ := hread t' (List.of_mem_zip ht').2
      obtain ⟨a₂, ha₂⟩ := hread u' (List.of_mem_zip hu').2
      have habove := hmono t t' ht' u u' hu' d₁ d₂ hd₁ hd₂ hlt a₁ a₂ ha₁ ha₂
      have hbelow := priority_lt_of_deadline_lt hparse hrun ht' hu' hd₁ hd₂ hlt ha₁ ha₂
      omega
    intro t ht u hu d₁ d₂ hd₁ hd₂
    have h₁ := hnot t ht u hu d₁ d₂ hd₁ hd₂
    have h₂ := hnot u hu t ht d₂ d₁ hd₂ hd₁
    omega
  · intro hsame t t' ht u u' hu d₁ d₂ hd₁ hd₂ hlt
    have := hsame t (List.of_mem_zip ht).1 u (List.of_mem_zip hu).1 d₁ d₂ hd₁ hd₂
    omega

/-- A task with this deadline. -/
def deadlineTask (ident irq : Ident) (deadline : Nat) : ModuleItem :=
  .strct ⟨ident, [⟨["task"], .list [("binds", some (.path [irq])),
    ("deadline", some (.int deadline))]⟩], [], ";"⟩

def initItem : ModuleItem := .fn ⟨"init", [⟨["init"], .path⟩], "() -> TaskInits"⟩

/-- The deadline of 10 gets priority 1, the one of 100 priority 2. -/
theorem deadlines_inverted : ∃ app tasks' coreApp,
    App.parse [initItem, deadlineTask "Fast" "EXTI0" 10, deadlineTask "Slow" "EXTI1" 100] =
      .ok app ∧
    runTasks 16 app = .ok tasks' ∧
    Source.App.parse ⟨["pac"], 1⟩ (app.restOfCode ++ tasks'.map RticTask.generate) = .ok coreApp ∧
    ¬ DeadlineMonotonic app.tasks tasks' := by
  refine ⟨_, _, _, rfl, rfl, rfl, ?_⟩
  intro hmono
  have hlt := hmono _ _ List.mem_cons_self _ _ (List.mem_cons_of_mem _ List.mem_cons_self) 10 100
    rfl rfl (by decide) _ _ (.task rfl (List.Perm.refl _) rfl) (.task rfl (List.Perm.refl _) rfl)
  exact absurd hlt (by decide)

/-- A task without one. -/
def plainTask (ident irq : Ident) : ModuleItem :=
  .strct ⟨ident, [⟨["task"], .list [("binds", some (.path [irq]))]⟩], [], ";"⟩

/-- What is read off these structs. -/
def readTask (ident irq : Ident) (deadline : Option Nat) : RticTask where
  params := RticAttr.parseFromTokens (("binds", some (.path [irq])) ::
    deadline.toList.map fun d => ("deadline", some (.int d))) "task"
  taskStruct := ⟨ident, [], [], ";"⟩
  deadline := deadline

/-- Two tasks of one deadline and one without. -/
def twinItems : List ModuleItem :=
  [initItem, deadlineTask "Fast" "EXTI0" 10, deadlineTask "Twin" "EXTI1" 10,
    plainTask "Log" "EXTI2"]

def twinTasks : List RticTask :=
  [readTask "Fast" "EXTI0" (some 10), readTask "Twin" "EXTI1" (some 10),
    readTask "Log" "EXTI2" none]

/-- The deadlines are replaced by their ranks. -/
def twinRanked : List RticTask :=
  [{ readTask "Fast" "EXTI0" (some 10) with deadline := some 1 },
    { readTask "Twin" "EXTI1" (some 10) with deadline := some 1 }, readTask "Log" "EXTI2" none]

theorem deadline_monotonic_twins :
    App.parse twinItems = .ok ⟨twinTasks, [initItem]⟩ ∧
    runTasks 16 ⟨twinTasks, [initItem]⟩ = .ok (twinRanked.map RticTask.convert) ∧
    DeadlineMonotonic twinTasks (twinRanked.map RticTask.convert) := by
  have hparse : App.parse twinItems = .ok ⟨twinTasks, [initItem]⟩ := rfl
  have hrun : runTasks 16 ⟨twinTasks, [initItem]⟩ =
    .ok (twinRanked.map RticTask.convert) := rfl
  refine ⟨hparse, hrun, (deadline_monotonic_iff hparse hrun ?_).mpr ?_⟩
  · refine List.forall_mem_cons.mpr ⟨⟨_, .task rfl (List.Perm.refl _) rfl⟩, ?_⟩
    refine List.forall_mem_cons.mpr ⟨⟨_, .task rfl (List.Perm.refl _) rfl⟩, ?_⟩
    exact List.forall_mem_singleton.mpr ⟨_, .task rfl (List.Perm.refl _) rfl⟩
  · have hten : ∀ t ∈ twinTasks, t.deadline = none ∨ t.deadline = some 10 := by decide
    intro t ht u hu d₁ d₂ hd₁ hd₂
    have ht := hten t ht
    have hu := hten u hu
    rw [hd₁] at ht
    rw [hd₂] at hu
    simp_all

end Rticx.DeadlinePass
