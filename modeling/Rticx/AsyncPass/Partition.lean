import Rticx.AsyncPass.Grouping
import Rticx.Lib.Partition

/-!
# What the passes make of the module

`App::parse` of both passes with the loops and maps of the source: the implementations are removed
one by one from a vector that is being searched, and the tasks go into two maps by core that are
emptied again. It takes the module apart, and every item is in exactly one part.
-/

namespace Rticx.SwPass

open Rticx.Core Rticx.Core.Source Rticx.Lib Rticx.Lib.Except

/-! ## The loops -/

/-- The loop of `take_impl_for`, with what is in front of `i`, what follows, and what was found. -/
def takeImplLoop (ident traitTy : Ident) (passed : List (Ident × ItemImpl)) :
    List (Ident × ItemImpl) → Option ItemImpl →
      Except String (Option ItemImpl × List (Ident × ItemImpl))
  | [], found => .ok (found, passed)
  | entry :: impls, found =>
    if entry.1 = ident then
      if found.isSome then
        .error s!"Multiple `{traitTy}` implementations found for task `{ident}`."
      else takeImplLoop ident traitTy passed impls (some entry.2)
    else takeImplLoop ident traitTy (passed ++ [entry]) impls found

/-- The vectors that the first loop of `App::parse` fills. -/
structure Collected where
  taskStructs : List (ItemStruct × Attribute)
  taskImpls : List (Ident × ItemImpl)
  restOfCode : List ModuleItem

/-- Where the first loop puts an item. -/
def Collected.push (c : Collected) : PassItem → Collected
  | .taskStruct strct attr => { c with taskStructs := c.taskStructs ++ [(strct, attr)] }
  | .taskImpl implementor implItem =>
    { c with taskImpls := c.taskImpls ++ [(implementor, implItem)] }
  | .restOfCode item => { c with restOfCode := c.restOfCode ++ [item] }

/-- The tasks by core. -/
abbrev CoreTasks := AList fun _ : Nat => List SoftwareTask

/-- `tasks.entry(core).or_insert(Vec::new()).push(task)` -/
def pushTask (tasks : CoreTasks) (task : SoftwareTask) : CoreTasks :=
  tasks.insert task.params.core ((tasks.lookup task.params.core).getD [] ++ [task])

/-- The implementations that are left, and the maps that the second loop fills. -/
structure Placed where
  taskImpls : List (Ident × ItemImpl)
  swTasks : CoreTasks
  mcSwTasks : CoreTasks

/-- The body of the second loop. -/
def Placed.push (pass : TaskPass) (cores : Nat) (s : Placed) (entry : ItemStruct × Attribute) :
    Except String Placed := do
  let (task, taskImpls) ← parseTask pass cores s.taskImpls entry.1 entry.2
  if task.params.core = task.params.spawnBy then
    return { s with taskImpls := taskImpls, swTasks := pushTask s.swTasks task }
  else return { s with taskImpls := taskImpls, mcSwTasks := pushTask s.mcSwTasks task }

/-- The body of the third loop, which removes the tasks of a core from the maps. -/
def drainCore (appParams : AppParameters) (s : List SubApp × CoreTasks × CoreTasks) (core : Nat) :
    List SubApp × CoreTasks × CoreTasks :=
  (s.1 ++ [{
      core := core
      dispatchers := (appParams.dispatchers.lookup core).getD []
      swTasks := (s.2.1.lookup core).getD []
      mcSwTasks := (s.2.2.lookup core).getD [] }],
    s.2.1.erase core, s.2.2.erase core)

/-- `App::parse`, as the source has it. -/
def App.parseLoops (pass : TaskPass) (appParams : AppParameters) (items : List ModuleItem) :
    Except String App := do
  let c ← items.foldlM (fun (c : Collected) item => (sortItem pass item).map c.push)
    { taskStructs := [], taskImpls := [], restOfCode := [] }
  let s ← c.taskStructs.foldlM (Placed.push pass appParams.cores)
    { taskImpls := c.taskImpls, swTasks := ∅, mcSwTasks := ∅ }
  let app : App := {
    appParams := appParams
    subApps := ((List.range appParams.cores).foldl (drainCore appParams)
      ([], s.swTasks, s.mcSwTasks)).1
    restOfCode := c.restOfCode ++ s.taskImpls.map fun entry => .impl entry.2 }
  match pass with
  | .software => return app
  | .async =>
    if AsyncPass.hasPrio0 app && AsyncPass.hasUserIdle items then
      .error ("Cannot define a custom `#[idle]` task when priority-0 async tasks are present. Use " ++
        "`#[post_init]` to spawn initial tasks instead.")
    else return app

/-! ## What the loops compute -/

variable {pass : TaskPass} {appParams : AppParameters} {items : List ModuleItem} {app : App}

theorem takeImplLoop_some (ident traitTy : Ident) (passed impls : List (Ident × ItemImpl))
    (found : ItemImpl) :
    takeImplLoop ident traitTy passed impls (some found) =
      match impls.filter (·.1 = ident) with
      | [] => .ok (some found, passed ++ impls)
      | _ => .error s!"Multiple `{traitTy}` implementations found for task `{ident}`." := by
  induction impls generalizing passed with
  | nil =>
    rw [List.append_nil]
    rfl
  | cons entry impls ih =>
    unfold takeImplLoop
    by_cases hident : entry.1 = ident
    · simp [hident]
    · rw [if_neg hident, ih, List.filter_cons_of_neg (by simpa using hident), List.append_assoc]
      rfl

/-- **The loop that removes while it searches** takes the one implementation there is. -/
theorem takeImplFor_eq (ident traitTy : Ident) (impls : List (Ident × ItemImpl)) :
    takeImplLoop ident traitTy [] impls none = takeImplFor impls ident traitTy := by
  have hloop : ∀ passed : List (Ident × ItemImpl), takeImplLoop ident traitTy passed impls none =
      (takeImplFor impls ident traitTy).map fun taken => (taken.1, passed ++ taken.2) := by
    unfold takeImplFor
    induction impls with
    | nil =>
      intro passed
      simp [takeImplLoop, Except.map]
    | cons entry impls ih =>
      intro passed
      unfold takeImplLoop
      by_cases hident : entry.1 = ident
      · rw [if_pos hident, takeImplLoop_some, List.filter_cons_of_pos (by simpa using hident)]
        cases hfilter : impls.filter (·.1 = ident) with
        | nil =>
          have hall : (impls.filter fun x => !decide (x.1 = ident)) = impls := by
            rw [List.filter_eq_self]
            intro x hx
            simpa using List.filter_eq_nil_iff.mp hfilter x hx
          simp [Except.map, hident, hall]
        | cons x xs => rfl
      · rw [if_neg hident, ih, List.filter_cons_of_neg (by simpa using hident)]
        cases impls.filter (·.1 = ident) with
        | nil => simp [Except.map]
        | cons x xs =>
          cases xs with
          | nil => simp [Except.map, hident]
          | cons y ys => rfl
  rw [hloop]
  cases takeImplFor impls ident traitTy <;> rfl

/-- The three vectors are the three parts of the sorted items. -/
theorem foldl_push (sorted : List PassItem) (c : Collected) :
    sorted.foldl Collected.push c = {
      taskStructs := c.taskStructs ++ sorted.filterMap PassItem.taskStruct?
      taskImpls := c.taskImpls ++ sorted.filterMap PassItem.taskImpl?
      restOfCode := c.restOfCode ++ sorted.filterMap PassItem.restOfCode? } := by
  induction sorted generalizing c with
  | nil => simp
  | cons x sorted ih =>
    rw [List.foldl_cons, ih]
    cases x <;> simp [Collected.push, PassItem.taskStruct?, PassItem.taskImpl?,
      PassItem.restOfCode?, List.filterMap_cons]

/-- The tasks that were put into a map are found by their core, in order. -/
theorem lookup_pushTask (tasks : List SoftwareTask) (core : Nat) :
    (((tasks.foldl pushTask ∅).lookup core).getD [] : List SoftwareTask) =
      tasks.filter (·.params.core = core) := by
  induction tasks using List.reverseRecOn with
  | nil => rfl
  | append_singleton tasks task ih =>
    rw [List.foldl_append, List.foldl_cons, List.foldl_nil, List.filter_append, pushTask]
    by_cases hcore : task.params.core = core
    · subst hcore
      rw [AList.lookup_insert, ih]
      simp
    · rw [AList.lookup_insert_ne (Ne.symm hcore), ih]
      simp [hcore]

/-- The maps that hold these tasks. -/
def placed (s : List SoftwareTask × List (Ident × ItemImpl)) : Placed where
  taskImpls := s.2
  swTasks := (s.1.filter fun task => !task.cross).foldl pushTask ∅
  mcSwTasks := (s.1.filter (·.cross)).foldl pushTask ∅

/-- The second loop of `App.parseTasks`. -/
def parseRound (pass : TaskPass) (cores : Nat) (s : List SoftwareTask × List (Ident × ItemImpl))
    (entry : ItemStruct × Attribute) :
    Except String (List SoftwareTask × List (Ident × ItemImpl)) := do
  let (task, impls) ← parseTask pass cores s.2 entry.1 entry.2
  return (s.1 ++ [task], impls)

theorem push_placed (cores : Nat) (s : List SoftwareTask × List (Ident × ItemImpl))
    (entry : ItemStruct × Attribute) :
    (placed s).push pass cores entry = (parseRound pass cores s entry).map placed := by
  unfold Placed.push parseRound
  show (parseTask pass cores s.2 entry.1 entry.2 >>= _) = _
  cases parseTask pass cores s.2 entry.1 entry.2 with
  | error e => rfl
  | ok parsed =>
    obtain ⟨task, impls⟩ := parsed
    by_cases hcore : task.params.core = task.params.spawnBy
    · simp [Bind.bind, Except.bind, Except.map, pure, Except.pure, placed, SoftwareTask.cross, hcore]
    · simp [Bind.bind, Except.bind, Except.map, pure, Except.pure, placed, SoftwareTask.cross, hcore]

/-- The third loop empties the maps. -/
theorem foldl_drainCore {cores : List Nat} (hcores : cores.Nodup)
    (s : List SubApp × CoreTasks × CoreTasks) :
    (cores.foldl (drainCore appParams) s).1 = s.1 ++ cores.map fun core => {
      core := core
      dispatchers := (appParams.dispatchers.lookup core).getD []
      swTasks := (s.2.1.lookup core).getD []
      mcSwTasks := (s.2.2.lookup core).getD [] } := by
  induction cores generalizing s with
  | nil => simp
  | cons core cores ih =>
    obtain ⟨hcore, hcores⟩ := List.nodup_cons.mp hcores
    rw [List.foldl_cons, ih hcores, List.map_cons, drainCore, List.append_assoc,
      List.singleton_append]
    refine congrArg (s.1 ++ _ :: ·) (List.map_congr_left fun core' hcore' => ?_)
    have hne : core' ≠ core := by
      rintro rfl
      exact hcore hcore'
    rw [AList.lookup_erase_ne hne, AList.lookup_erase_ne hne]

/-- The maps are taken apart into the tasks of each core. -/
theorem drained (s : List SoftwareTask × List (Ident × ItemImpl)) :
    ((List.range appParams.cores).foldl (drainCore appParams)
        ([], (placed s).swTasks, (placed s).mcSwTasks)).1 =
      (List.range appParams.cores).map (SubApp.ofTasks appParams s.1) := by
  rw [foldl_drainCore List.nodup_range, List.nil_append]
  refine List.map_congr_left fun core _ => ?_
  simp only [placed, lookup_pushTask, List.filter_filter, SubApp.ofTasks]
  congr 1 <;> refine List.filter_congr fun task _ => ?_
  · cases task.cross <;> simp
  · cases task.cross <;> simp

/-- **The loops compute the model.** -/
theorem parseLoops_eq : App.parseLoops pass appParams items = pass.parse appParams items := by
  have hparse : pass.parse appParams items = (App.parseTasks pass appParams items >>= fun app =>
      match pass with
      | .software => .ok app
      | .async =>
        if AsyncPass.hasPrio0 app && AsyncPass.hasUserIdle items then
          .error ("Cannot define a custom `#[idle]` task when priority-0 async tasks are present. " ++
            "Use `#[post_init]` to spawn initial tasks instead.")
        else .ok app) := by
    cases pass with
    | software =>
      show App.parseTasks .software appParams items = _
      cases App.parseTasks .software appParams items <;> rfl
    | async => rfl
  rw [hparse]
  unfold App.parseLoops App.parseTasks
  rw [foldlM_bind_pure]
  cases items.mapM (sortItem pass) with
  | error e => rfl
  | ok sorted =>
    rw [Except.map, foldl_push]
    let structs := sorted.filterMap PassItem.taskStruct?
    let impls := sorted.filterMap PassItem.taskImpl?
    have hloop := foldlM_map (l := structs) (b := ([], impls)) (@push_placed pass appParams.cores)
    show (structs.foldlM (Placed.push pass appParams.cores) (placed ([], impls)) >>= _) =
      ((structs.foldlM (parseRound pass appParams.cores) ([], impls) >>= _) >>= _)
    rw [hloop]
    cases structs.foldlM (parseRound pass appParams.cores) ([], impls) with
    | error e => rfl
    | ok s =>
      simp only [Except.map, Bind.bind, Except.bind, drained, pure, Except.pure]
      rfl

/-! ## The parts of the module -/

/-- The struct carries the attribute of the pass, which is taken off. -/
def taskStruct? (pass : TaskPass) : ModuleItem → Option (ItemStruct × Attribute)
  | .strct strct =>
    (takeAttr pass.attrName strct.attrs).map fun taken => ({ strct with attrs := taken.2 }, taken.1)
  | _ => none

/-- The item implements the trait of the pass for a type. -/
def taskImpl? (pass : TaskPass) : ModuleItem → Option (Ident × ItemImpl)
  | .impl implItem => (getTaskImplementor implItem pass.traitTy).map (·, implItem)
  | _ => none

/-- The structs that become tasks. -/
def taskStructs (pass : TaskPass) (items : List ModuleItem) : List (ItemStruct × Attribute) :=
  items.filterMap (taskStruct? pass)

/-- The implementations that may belong to tasks. -/
def taskImpls (pass : TaskPass) (items : List ModuleItem) : List (Ident × ItemImpl) :=
  items.filterMap (taskImpl? pass)

/-- The items that the pass has nothing to do with. -/
def plainItems (pass : TaskPass) (items : List ModuleItem) : List ModuleItem :=
  items.filter fun item => (taskStruct? pass item).isNone && (taskImpl? pass item).isNone

theorem sortItem_ok {item : ModuleItem} {x : PassItem} (h : sortItem pass item = .ok x) :
    x.taskStruct? = taskStruct? pass item ∧ x.taskImpl? = taskImpl? pass item ∧
      x.restOfCode? =
        if (taskStruct? pass item).isNone && (taskImpl? pass item).isNone then some item else none := by
  cases item with
  | strct strct =>
    simp only [sortItem] at h
    split at h <;> cases h
    · rename_i htake
      simp [PassItem.taskStruct?, PassItem.taskImpl?, PassItem.restOfCode?, taskStruct?, taskImpl?,
        htake]
    · rename_i htake
      simp [PassItem.taskStruct?, PassItem.taskImpl?, PassItem.restOfCode?, taskStruct?, taskImpl?,
        htake]
  | impl implItem =>
    simp only [sortItem] at h
    split at h <;> cases h
    · rename_i hget
      simp [PassItem.taskStruct?, PassItem.taskImpl?, PassItem.restOfCode?, taskStruct?, taskImpl?,
        hget]
    · rename_i hget
      simp [PassItem.taskStruct?, PassItem.taskImpl?, PassItem.restOfCode?, taskStruct?, taskImpl?,
        hget]
  | fn function | use item | other item =>
    simp only [sortItem] at h
    split at h <;> cases h
    exact ⟨rfl, rfl, rfl⟩

theorem mapM_sortItem {sorted : List PassItem} (h : items.mapM (sortItem pass) = .ok sorted) :
    sorted.filterMap PassItem.taskStruct? = taskStructs pass items ∧
      sorted.filterMap PassItem.taskImpl? = taskImpls pass items ∧
      sorted.filterMap PassItem.restOfCode? = plainItems pass items := by
  have hforall := mapM_forall₂ h
  clear h
  induction hforall with
  | nil => exact ⟨rfl, rfl, rfl⟩
  | @cons item x items sorted hitem _ ih =>
    obtain ⟨hstruct, himpl, hrest⟩ := sortItem_ok hitem
    simp only [taskStructs, taskImpls, plainItems, List.filterMap_cons, List.filter_cons, hstruct,
      himpl, hrest] at ih ⊢
    refine ⟨?_, ?_, ?_⟩
    · rw [ih.1]
    · rw [ih.2.1]
    · split
      · rename_i hnone
        rw [ite_eq_right_iff] at hnone
        rw [if_neg (by simpa using hnone), ih.2.2]
      · rename_i hsome
        split at hsome
        · rename_i hplain
          cases hsome
          rw [if_pos hplain, ih.2.2]
        · cases hsome

/-! ## The tasks -/

/-- The task is what the attribute says about the struct. -/
structure ReadFrom (pass : TaskPass) (entry : ItemStruct × Attribute) (task : SoftwareTask) : Prop where
  taskStruct : task.taskStruct = entry.1
  attr : ∃ attr, fromMeta entry.2 = .ok attr ∧ TaskParams.fromAttr attr = .ok task.params ∧
    task.taskAttr = intoTaskAttr attr pass.traitTy

/-- What the second loop has made of the structs so far. -/
structure Attached (pass : TaskPass) (cores : Nat) (impls : List (Ident × ItemImpl))
    (structs : List (ItemStruct × Attribute)) (tasks : List SoftwareTask)
    (left : List (Ident × ItemImpl)) : Prop where
  read : List.Forall₂ (ReadFrom pass) structs tasks
  cores : ∀ task ∈ tasks, task.params.core < cores ∧ task.params.spawnBy < cores
  /-- the first task of a name takes the implementation for it -/
  taskImpl : ∀ k : Nat, ∀ task, tasks[k]? = some task → task.taskImpl =
    if task.name ∈ (tasks.take k).map SoftwareTask.name then none
    else (impls.find? (·.1 = task.name)).map Prod.snd
  unique : ∀ task ∈ tasks, (impls.filter (·.1 = task.name)).length ≤ 1
  left : left = impls.filter fun entry => entry.1 ∉ tasks.map SoftwareTask.name

theorem parseTask_spec {cores : Nat} {impls left : List (Ident × ItemImpl)}
    {entry : ItemStruct × Attribute} {task : SoftwareTask}
    (h : parseTask pass cores impls entry.1 entry.2 = .ok (task, left)) :
    ReadFrom pass entry task ∧
      takeImplFor impls task.name pass.traitTy = .ok (task.taskImpl, left) := by
  obtain ⟨⟨taskImpl, impls'⟩, htake, h⟩ := bind_eq_ok.mp h
  obtain ⟨attr, hattr, h⟩ := bind_eq_ok.mp h
  obtain ⟨params, hparams, h⟩ := bind_eq_ok.mp h
  split at h
  · cases h
  · split at h <;> cases h
    exact ⟨⟨rfl, attr, hattr, hparams, rfl⟩, htake⟩

/-- What is found, and that there is no second one. -/
theorem takeImplFor_ok {ident traitTy : Ident} {impls left : List (Ident × ItemImpl)}
    {found : Option ItemImpl} (h : takeImplFor impls ident traitTy = .ok (found, left)) :
    found = (impls.find? (·.1 = ident)).map Prod.snd ∧
      (impls.filter (·.1 = ident)).length ≤ 1 ∧ left = impls.filter (·.1 ≠ ident) := by
  unfold takeImplFor at h
  rw [← List.head?_filter]
  split at h
  · rename_i hnil
    cases h
    refine ⟨by rw [hnil]; rfl, by rw [hnil]; exact Nat.zero_le 1, ?_⟩
    symm
    rw [List.filter_eq_self]
    intro x hx
    simpa using List.filter_eq_nil_iff.mp hnil x hx
  · rename_i hone
    cases h
    exact ⟨by rw [hone]; rfl, by rw [hone]; exact Nat.le_refl 1, rfl⟩
  · cases h

/-- A round attaches an implementation to one more task. -/
theorem Attached.push {cores : Nat} {impls left left' : List (Ident × ItemImpl)}
    {structs : List (ItemStruct × Attribute)} {tasks : List SoftwareTask}
    (h : Attached pass cores impls structs tasks left) {entry : ItemStruct × Attribute}
    {task : SoftwareTask} (hparse : parseTask pass cores left entry.1 entry.2 = .ok (task, left')) :
    Attached pass cores impls (structs ++ [entry]) (tasks ++ [task]) left' := by
  obtain ⟨hread, htake⟩ := parseTask_spec hparse
  obtain ⟨hfound, hunique, hleft'⟩ := takeImplFor_ok htake
  have hleft := h.left
  -- an implementation for the new task is still there if no earlier task has its name
  have hfilter : left.filter (·.1 = task.name) =
      if task.name ∈ tasks.map SoftwareTask.name then [] else impls.filter (·.1 = task.name) := by
    rw [hleft, List.filter_filter]
    split
    · rename_i hmem
      rw [List.filter_eq_nil_iff]
      intro x _ hx
      rw [Bool.and_eq_true, decide_eq_true_eq, decide_eq_true_eq] at hx
      exact hx.2 (hx.1 ▸ hmem)
    · rename_i hnot
      refine List.filter_congr fun x _ => ?_
      by_cases hx : x.1 = task.name
      · simp [hx, hnot]
      · simp [hx]
  refine ⟨?_, fun t ht => ?_, fun k t hk => ?_, fun t ht => ?_, ?_⟩
  · exact List.rel_append h.read (List.Forall₂.cons hread List.Forall₂.nil)
  · rcases List.mem_append.mp ht with ht | ht
    · exact h.cores t ht
    · rw [List.mem_singleton.mp ht]
      exact parseTask_ok hparse
  · rcases Nat.lt_trichotomy k tasks.length with hlt | rfl | hgt
    · rw [List.getElem?_append_left hlt] at hk
      rw [List.take_append_of_le_length (Nat.le_of_lt hlt)]
      exact h.taskImpl k t hk
    · rw [List.getElem?_concat_length, Option.some.injEq] at hk
      subst hk
      rw [List.take_left', hfound, ← List.head?_filter, hfilter]
      · split <;> simp
      · rfl
    · rw [List.getElem?_eq_none (by simp; omega)] at hk
      cases hk
  · rcases List.mem_append.mp ht with ht | ht
    · exact h.unique t ht
    · rw [List.mem_singleton.mp ht]
      by_cases hmem : task.name ∈ tasks.map SoftwareTask.name
      · obtain ⟨t', ht', hname⟩ := List.mem_map.mp hmem
        rw [← hname]
        exact h.unique t' ht'
      · rw [hfilter, if_neg hmem] at hunique
        exact hunique
  · rw [hleft', hleft, List.filter_filter]
    refine List.filter_congr fun x _ => ?_
    by_cases hx : x.1 = task.name
    · simp [hx]
    · simp [hx]

theorem attached_of_foldlM {cores : Nat} {impls left : List (Ident × ItemImpl)}
    {structs : List (ItemStruct × Attribute)} {tasks : List SoftwareTask}
    (h : structs.foldlM (parseRound pass cores) ([], impls) = .ok (tasks, left)) :
    Attached pass cores impls structs tasks left := by
  induction structs using List.reverseRecOn generalizing tasks left with
  | nil =>
    cases h
    refine ⟨List.Forall₂.nil, by simp, by simp, by simp, ?_⟩
    simp
  | append_singleton structs entry ih =>
    rw [List.foldlM_append] at h
    obtain ⟨⟨tasks', left'⟩, hstructs, h⟩ := bind_eq_ok.mp h
    obtain ⟨_, h, hnil⟩ := bind_eq_ok.mp h
    cases hnil
    obtain ⟨⟨task, left''⟩, hparse, h⟩ := bind_eq_ok.mp h
    cases h
    exact (ih hstructs).push hparse

/-! ## The whole module -/

/-- Where the items of the module are after the parse. -/
structure Parts (pass : TaskPass) (appParams : AppParameters) (items : List ModuleItem) (app : App)
    (tasks : List SoftwareTask) (left : List (Ident × ItemImpl)) : Prop where
  attached : Attached pass appParams.cores (taskImpls pass items) (taskStructs pass items) tasks left
  subApps : app.subApps = (List.range appParams.cores).map (SubApp.ofTasks appParams tasks)
  restOfCode : app.restOfCode = plainItems pass items ++ left.map fun entry => .impl entry.2

theorem parts_of_parseTasks (h : App.parseTasks pass appParams items = .ok app) :
    ∃ tasks left, Parts pass appParams items app tasks left := by
  obtain ⟨sorted, hsorted, h⟩ := bind_eq_ok.mp h
  obtain ⟨⟨tasks, left⟩, hloop, h⟩ := bind_eq_ok.mp h
  cases h
  obtain ⟨hstructs, himpls, hplain⟩ := mapM_sortItem hsorted
  rw [hstructs, himpls] at hloop
  exact ⟨tasks, left, attached_of_foldlM hloop, rfl, by rw [hplain]⟩

theorem parseTasks_of_parse (h : pass.parse appParams items = .ok app) :
    App.parseTasks pass appParams items = .ok app := by
  cases pass with
  | software => exact h
  | async => exact AsyncPass.parseTasks_of_parse h

/-- **The sub-apps have each task once.** -/
theorem Parts.perm {tasks : List SoftwareTask} {left : List (Ident × ItemImpl)}
    (h : Parts pass appParams items app tasks left) : app.tasks.Perm tasks := by
  have hcore : ∀ core, (SubApp.ofTasks appParams tasks core).tasks.Perm
      ((tasks.filter (·.params.core = core)).flatMap fun task => [task]) := by
    intro core
    have hlocal : (SubApp.ofTasks appParams tasks core).swTasks =
        (tasks.filter (·.params.core = core)).filter fun task => !task.cross := by
      simp only [SubApp.ofTasks, List.filter_filter]
      refine List.filter_congr fun task _ => ?_
      cases task.cross <;> simp
    have hcross : (SubApp.ofTasks appParams tasks core).mcSwTasks =
        (tasks.filter (·.params.core = core)).filter fun task => !!task.cross := by
      simp only [SubApp.ofTasks, List.filter_filter]
      refine List.filter_congr fun task _ => ?_
      cases task.cross <;> simp
    rw [List.flatMap_singleton', SubApp.tasks, hlocal, hcross]
    exact List.filter_append_perm _ _
  have hall : tasks.filter (·.params.core < appParams.cores) = tasks := by
    rw [List.filter_eq_self]
    intro task htask
    simpa using (h.attached.cores task htask).1
  rw [App.tasks, h.subApps, List.flatMap_map]
  refine (List.Perm.flatMap_left _ fun core _ => hcore core).trans ?_
  refine (Partition.flatMap_range_filter (fun task : SoftwareTask => task.params.core) _ _).trans ?_
  rw [hall, List.flatMap_singleton']

/-- Why a module is rejected. -/
inductive Rejected (pass : TaskPass) (appParams : AppParameters) (items : List ModuleItem) : Prop where
  | twoImpls (entry : ItemStruct × Attribute) : entry ∈ taskStructs pass items →
    2 ≤ ((taskImpls pass items).filter (·.1 = entry.1.ident)).length →
    Rejected pass appParams items
  /-- the number after the key is the bound of its type -/
  | argument (entry : ItemStruct × Attribute) (attr : RticAttr) (key : Ident × Nat) (expr : Expr) :
    entry ∈ taskStructs pass items → fromMeta entry.2 = .ok attr →
    key ∈ [("priority", 2 ^ 16), ("core", 2 ^ 32), ("spawn_by", 2 ^ 32), ("capacity", 2 ^ 64)] →
    attr.getExpr key.1 = some expr → (∀ value, expr = .int value → key.2 ≤ value) →
    Rejected pass appParams items
  | capacity (entry : ItemStruct × Attribute) (attr : RticAttr) : entry ∈ taskStructs pass items →
    fromMeta entry.2 = .ok attr → attr.getExpr "capacity" = some (.int 0) →
    Rejected pass appParams items
  | core (entry : ItemStruct × Attribute) (attr : RticAttr) (key : Ident) (core : Nat) :
    entry ∈ taskStructs pass items → fromMeta entry.2 = .ok attr → key ∈ ["core", "spawn_by"] →
    attr.getExpr key = some (.int core) → appParams.cores ≤ core → Rejected pass appParams items
  /-- an item that is not a struct -/
  | misplaced (item : ModuleItem) (attrs : List Attribute) : item ∈ items →
    (∀ strct, item ≠ .strct strct) → itemAttrs item = some attrs →
    (takeAttr pass.attrName attrs).isSome = true → Rejected pass appParams items

/-- Every struct has become a task. -/
theorem Parts.exists_task {tasks : List SoftwareTask} {left : List (Ident × ItemImpl)}
    (h : Parts pass appParams items app tasks left) {entry : ItemStruct × Attribute}
    (hentry : entry ∈ taskStructs pass items) : ∃ task ∈ tasks, ReadFrom pass entry task := by
  have hread := h.attached.read
  obtain ⟨k, hk, rfl⟩ := List.mem_iff_getElem.mp hentry
  have hk' : k < tasks.length := hread.length_eq ▸ hk
  exact ⟨tasks[k], List.getElem_mem hk', List.forall₂_iff_get.mp hread |>.2 k hk hk'⟩

/-- A module that was accepted gives no reason to reject it. -/
theorem Rejected.not_ok (h : Rejected pass appParams items) :
    App.parseTasks pass appParams items ≠ .ok app := by
  intro hparse
  obtain ⟨tasks, left, hparts⟩ := parts_of_parseTasks hparse
  -- what the struct of the reason says
  have hread : ∀ entry attr, entry ∈ taskStructs pass items → fromMeta entry.2 = .ok attr →
      ∃ task ∈ tasks, TaskParams.fromAttr attr = .ok task.params := by
    intro entry attr hentry hattr
    obtain ⟨task, htask, -, attr', hattr', hparams, -⟩ := hparts.exists_task hentry
    rw [hattr] at hattr'
    cases hattr'
    exact ⟨task, htask, hparams⟩
  cases h with
  | twoImpls entry hentry htwo =>
    obtain ⟨task, htask, hstruct, -⟩ := hparts.exists_task hentry
    have hone := hparts.attached.unique task htask
    rw [SoftwareTask.name, hstruct] at hone
    omega
  | argument entry attr key expr hentry hattr hkey hget hbad =>
    obtain ⟨task, -, hparams⟩ := hread entry attr hentry hattr
    obtain ⟨hpriority, hcore, hspawnBy, hcapacity, -⟩ := fromAttr_args hparams
    have hgood : ∀ {default value}, parseAttrInt attr key.1 key.2 default = .ok value → False := by
      intro default value hvalue
      obtain ⟨hint, hlt⟩ := parseAttrInt_some hvalue hget
      exact absurd (hbad value hint) (Nat.not_le_of_lt hlt)
    simp only [List.mem_cons, List.not_mem_nil, or_false] at hkey
    rcases hkey with rfl | rfl | rfl | rfl
    · exact hgood hpriority
    · exact hgood hcore
    · exact hgood hspawnBy
    · exact hgood hcapacity
  | capacity entry attr hentry hattr hget =>
    obtain ⟨task, -, hparams⟩ := hread entry attr hentry hattr
    obtain ⟨-, -, -, hcapacity, hne⟩ := fromAttr_args hparams
    obtain ⟨hint, -⟩ := parseAttrInt_some hcapacity hget
    exact hne (Expr.int.inj hint).symm
  | core entry attr key core hentry hattr hkey hget hle =>
    obtain ⟨task, htask, hparams⟩ := hread entry attr hentry hattr
    obtain ⟨-, hcore, hspawnBy, -⟩ := fromAttr_args hparams
    obtain ⟨hltCore, hltSpawnBy⟩ := hparts.attached.cores task htask
    simp only [List.mem_cons, List.not_mem_nil, or_false] at hkey
    rcases hkey with rfl | rfl
    · have hint := (parseAttrInt_some hcore hget).1
      cases hint
      omega
    · have hint := (parseAttrInt_some hspawnBy hget).1
      cases hint
      omega
  | misplaced item attrs hitem hstruct hattrs htake =>
    obtain ⟨sorted, hsorted, -⟩ := bind_eq_ok.mp hparse
    obtain ⟨x, -, hx⟩ := exists_of_mapM_ok hsorted item hitem
    cases item with
    | strct strct => exact hstruct strct rfl
    | impl implItem => cases hattrs
    | fn function | use other | other other =>
      simp only [sortItem, hattrs, Option.any_some, htake, if_true] at hx
      cases hx

/--
**The passes take the module apart.** The structs with the attribute of the pass are the tasks, each
in one list of the sub-app of its core and with the implementation for its name, if it is the first
of this name; all other items are in the rest of the code as they were. What cannot be a task is
an error.
-/
theorem module_partitioned (pass : TaskPass) (appParams : AppParameters) (items : List ModuleItem) :
    (∀ app, App.parseLoops pass appParams items = .ok app →
      ∃ tasks left, Parts pass appParams items app tasks left ∧ app.tasks.Perm tasks) ∧
    (Rejected pass appParams items → ∃ e, App.parseLoops pass appParams items = .error e) := by
  rw [parseLoops_eq]
  constructor
  · intro app h
    obtain ⟨tasks, left, hparts⟩ := parts_of_parseTasks (parseTasks_of_parse h)
    exact ⟨tasks, left, hparts, hparts.perm⟩
  · intro h
    rw [error_iff]
    rintro ⟨app, hparse⟩
    exact h.not_ok (parseTasks_of_parse hparse)

/-- `#[cfg(feature = ..)]` -/
def cfg (feature : String) : Attribute := ⟨["cfg"], .list [("feature", some (.other feature))]⟩

def blinkImpl : ItemImpl := ⟨some ["RticSwTask"], some ["Blink"], "{ .. }"⟩

/-- A struct is there for each of two configurations, with one implementation for both. -/
def declaredTwice : List ModuleItem :=
  [.strct ⟨"Blink", [cfg "fast", ⟨["sw_task"], .path⟩], [], ";"⟩,
    .strct ⟨"Blink", [cfg "slow", ⟨["sw_task"], .path⟩], [], ";"⟩, .impl blinkImpl]

/-- The second struct is left without the implementation. -/
theorem impl_attached_once : ∃ app,
    App.parseLoops .software ⟨∅, 1⟩ declaredTwice = .ok app ∧
      ¬ ∀ task ∈ app.tasks, ∀ implItem,
        (taskImpls .software declaredTwice).filter (·.1 = task.name) = [(task.name, implItem)] →
          task.taskImpl = some implItem := by
  refine ⟨_, rfl, fun h => ?_⟩
  have hsecond := h _ (List.mem_cons_of_mem _ List.mem_cons_self) blinkImpl (by decide +kernel)
  cases hsecond

theorem module_partitioned_twice : ∃ app tasks left,
    App.parseLoops .software ⟨∅, 1⟩ declaredTwice = .ok app ∧
      Parts .software ⟨∅, 1⟩ declaredTwice app tasks left ∧ app.tasks.Perm tasks := by
  obtain ⟨tasks, left, hparts⟩ := (module_partitioned .software ⟨∅, 1⟩ declaredTwice).1 _ rfl
  exact ⟨_, tasks, left, rfl, hparts⟩

end Rticx.SwPass
