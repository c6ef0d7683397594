import Rticx.Core.Source
import Rticx.Lib.Partition

/-!
# No item is lost

Every item of the module is in what code generation writes out, once, provided that no item names
a core that the app does not have and that every implementation of a trait is the one that some
task is looking for.
-/

namespace Rticx.Core.Source

open Rticx.Core Rticx.Lib Rticx.Lib.Except

/-! ## What the parser takes from an item -/

namespace Sorted

def shared? : Sorted → List (Nat × ItemStruct)
  | .shared strct attr => (coreArg attr).toOption.toList.map fun core => (core, strct)
  | _ => []

def init? : Sorted → List (Nat × ItemFn)
  | .init function attr => (coreArg attr).toOption.toList.map fun core => (core, function)
  | _ => []

def postInit? : Sorted → List (Nat × ItemFn)
  | .postInit function attr => (coreArg attr).toOption.toList.map fun core => (core, function)
  | _ => []

def idle? : Sorted → List (Nat × ItemStruct × Ident)
  | .idle strct attr =>
    (taskArgs attr).toOption.toList.map fun args => (args.core, strct, idleTraitTy)
  | _ => []

def task? : Sorted → List (Nat × ItemStruct × Ident)
  | .task strct attr =>
    (taskArgs attr).toOption.toList.map fun args => (args.core, strct, args.taskTrait)
  | _ => []

end Sorted

theorem insert_eq_ok {α : Type} {key : α → Nat} {what : String} {out out' : List α} {core : Nat}
    {value : Except String α} (h : insert key what out core value = .ok out') :
    core ∉ out.map key ∧ ∃ a, value = .ok a ∧ out' = out ++ [a] := by
  unfold insert at h
  split at h
  · cases h
  · rename_i hnone
    obtain ⟨a, ha, rfl⟩ := map_eq_ok.mp h
    have hfresh : lookup key out core = none := by simpa using hnone
    refine ⟨?_, a, ha, rfl⟩
    intro hmem
    obtain ⟨b, hb, hcore⟩ := List.mem_map.mp hmem
    have hne := List.find?_eq_none.mp hfresh b hb
    exact hne (by simpa using hcore)

/-! ## The loops of the parser -/

/-- A round of a loop: the item has nothing for it, or one part is made from it and added. -/
def Round {α β : Type} (header : α → β) (made : α → Prop) (read : List β) (out out' : List α) :
    Prop :=
  (out' = out ∧ read = []) ∨ ∃ a, out' = out ++ [a] ∧ read = [header a] ∧ made a

section Rounds

variable {α β : Type} {header : α → β} {read : Sorted → List β}
  {f : List α → Sorted → Except String (List α)} {items : List Sorted} {out : List α}

/-- The parts are made from what is read, in order. -/
theorem rounds_made {made : α → Prop}
    (hround : ∀ item out out', f out item = .ok out' → Round header made (read item) out out')
    (h : items.foldlM f [] = .ok out) :
    out.map header = items.flatMap read ∧ ∀ a ∈ out, made a := by
  constructor
  · refine foldlM_collects (g := List.map header) ?_ h
    intro item _ out out' hstep
    -- an item that is read adds its part at the end
    rcases hround item out out' hstep with ⟨rfl, hread⟩ | ⟨a, rfl, hread, _⟩
    · rw [hread, List.append_nil]
    · rw [hread, List.map_append]
      rfl
  · refine foldlM_ok (P := fun out => ∀ a ∈ out, made a) ?_ (fun a ha => by cases ha) h
    intro out item out' _ hout hstep
    rcases hround item out out' hstep with ⟨rfl, _⟩ | ⟨a, rfl, _, ha⟩
    · exact hout
    · intro b hb
      rcases List.mem_append.mp hb with hb | hb
      · exact hout b hb
      · rw [List.mem_singleton.mp hb]
        exact ha

/-- Where a part is only made for a core that has none, each core has one part. -/
theorem rounds_fresh {key : α → Nat}
    (hround : ∀ item out out', f out item = .ok out' →
      Round header (fun a => key a ∉ out.map key) (read item) out out')
    (h : items.foldlM f [] = .ok out) :
    out.map header = items.flatMap read ∧ (out.map key).Nodup := by
  constructor
  · have hall : out.map header = items.flatMap read ∧ ∀ a ∈ out, True := by
      refine rounds_made (fun item out out' hstep => ?_) h
      rcases hround item out out' hstep with hnone | ⟨a, hout, hread, _⟩
      · exact Or.inl hnone
      · exact Or.inr ⟨a, hout, hread, trivial⟩
    exact hall.1
  · refine foldlM_ok (P := fun out => (out.map key).Nodup) ?_ List.nodup_nil h
    intro out item out' _ hout hstep
    rcases hround item out out' hstep with ⟨rfl, _⟩ | ⟨a, rfl, _, hfresh⟩
    · exact hout
    · rw [List.map_append]
      refine hout.append (List.nodup_singleton _) ?_
      intro k hk hk'
      rw [List.mem_singleton.mp hk'] at hk
      exact hfresh hk

end Rounds

section

variable {items : List Sorted} {taskImpls : List (Ident × ItemImpl)}

theorem constructSharedResources_eq {out : List SharedResources}
    (h : constructSharedResources items = .ok out) :
    out.map (fun shared => (shared.core, shared.strct)) = items.flatMap Sorted.shared? ∧
      (out.map (·.core)).Nodup := by
  refine rounds_fresh (fun item out out' hstep => ?_) h
  split at hstep
  · rename_i strct attr
    obtain ⟨core, hcore, hstep⟩ := bind_eq_ok.mp hstep
    obtain ⟨hfresh, shared, hshared, rfl⟩ := insert_eq_ok hstep
    obtain ⟨resources, -, hshared⟩ := bind_eq_ok.mp hshared
    cases hshared
    exact Or.inr ⟨_, rfl, by simp [Sorted.shared?, hcore, Except.toOption], hfresh⟩
  · cases hstep
    exact Or.inl ⟨rfl, by cases item <;> simp_all [Sorted.shared?]⟩

theorem constructInits_eq {out : List InitTask} (h : constructInits items = .ok out) :
    out.map (fun init => (init.core, init.body)) = items.flatMap Sorted.init? ∧
      (out.map (·.core)).Nodup := by
  obtain ⟨out', hloop, h⟩ := bind_eq_ok.mp h
  split at h
  · cases h
  cases h
  refine rounds_fresh (fun item out out' hstep => ?_) hloop
  split at hstep
  · rename_i function attr
    obtain ⟨core, hcore, hstep⟩ := bind_eq_ok.mp hstep
    obtain ⟨hfresh, init, hinit, rfl⟩ := insert_eq_ok hstep
    cases hinit
    exact Or.inr ⟨_, rfl, by simp [Sorted.init?, hcore, Except.toOption], hfresh⟩
  · cases hstep
    exact Or.inl ⟨rfl, by cases item <;> simp_all [Sorted.init?]⟩

theorem constructPostInits_eq {out : List InitTask} (h : constructPostInits items = .ok out) :
    out.map (fun init => (init.core, init.body)) = items.flatMap Sorted.postInit? ∧
      (out.map (·.core)).Nodup := by
  refine rounds_fresh (fun item out out' hstep => ?_) h
  split at hstep
  · rename_i function attr
    obtain ⟨core, hcore, hstep⟩ := bind_eq_ok.mp hstep
    obtain ⟨hfresh, init, hinit, rfl⟩ := insert_eq_ok hstep
    cases hinit
    exact Or.inr ⟨_, rfl, by simp [Sorted.postInit?, hcore, Except.toOption], hfresh⟩
  · cases hstep
    exact Or.inl ⟨rfl, by cases item <;> simp_all [Sorted.postInit?]⟩

/-- A task by its core, its struct and the trait it has to implement. -/
def RticTask.header (task : RticTask) : Nat × ItemStruct × Ident :=
  (task.args.core, task.taskStruct, task.args.taskTrait)

/-- Every task has the implementation that the parser has found for it. -/
def RticTask.Linked (taskImpls : List (Ident × ItemImpl)) (task : RticTask) : Prop :=
  task.structImpl = findImpl taskImpls task.taskStruct.ident task.args.taskTrait

theorem constructIdleTasks_eq {out : List RticTask}
    (h : constructIdleTasks items taskImpls = .ok out) :
    out.map RticTask.header = items.flatMap Sorted.idle? ∧
      (out.map (·.args.core)).Nodup := by
  refine rounds_fresh (fun item out out' hstep => ?_) h
  split at hstep
  · rename_i strct attr
    obtain ⟨args, hargs, hstep⟩ := bind_eq_ok.mp hstep
    obtain ⟨hfresh, idle, hidle, rfl⟩ := insert_eq_ok hstep
    cases hidle
    exact Or.inr ⟨_, rfl, by simp [Sorted.idle?, hargs, Except.toOption, RticTask.header], hfresh⟩
  · cases hstep
    exact Or.inl ⟨rfl, by cases item <;> simp_all [Sorted.idle?]⟩

theorem constructIdleTasks_linked {out : List RticTask}
    (h : constructIdleTasks items taskImpls = .ok out) : ∀ t ∈ out, t.Linked taskImpls := by
  have hall : out.map RticTask.header = items.flatMap Sorted.idle? ∧
      ∀ t ∈ out, t.Linked taskImpls := by
    refine rounds_made (fun item out out' hstep => ?_) h
    split at hstep
    · obtain ⟨args, hargs, hstep⟩ := bind_eq_ok.mp hstep
      obtain ⟨-, idle, hidle, rfl⟩ := insert_eq_ok hstep
      cases hidle
      exact Or.inr ⟨_, rfl, by simp [Sorted.idle?, hargs, Except.toOption, RticTask.header], rfl⟩
    · cases hstep
      exact Or.inl ⟨rfl, by cases item <;> simp_all [Sorted.idle?]⟩
  exact hall.2

theorem constructRticTasks_eq {out : List RticTask}
    (h : constructRticTasks items taskImpls = .ok out) :
    out.map RticTask.header = items.flatMap Sorted.task? ∧ ∀ t ∈ out, t.Linked taskImpls := by
  refine rounds_made (fun item out out' hstep => ?_) h
  split at hstep
  · rename_i strct attr
    obtain ⟨args, hargs, hstep⟩ := bind_eq_ok.mp hstep
    cases hstep
    exact Or.inr ⟨_, rfl, by simp [Sorted.task?, hargs, Except.toOption, RticTask.header], rfl⟩
  · cases hstep
    exact Or.inl ⟨rfl, by cases item <;> simp_all [Sorted.task?]⟩

end

/-! ## The items by their kind -/

namespace Sorted

/-- The attribute of the item is one that the parser can read. -/
def WellRead : Sorted → Prop
  | .shared _ attr | .init _ attr | .postInit _ attr => ∃ core, coreArg attr = .ok core
  | .task _ attr | .idle _ attr => ∃ args, taskArgs attr = .ok args
  | _ => True

/-- The items of the framework of one kind. -/
def sharedItems (items : List Sorted) : List ModuleItem :=
  (items.flatMap shared?).map fun shared => .strct shared.2

def initItems (items : List Sorted) : List ModuleItem :=
  (items.flatMap init?).map fun init => .fn init.2

def postInitItems (items : List Sorted) : List ModuleItem :=
  (items.flatMap postInit?).map fun init => .fn init.2

def idleItems (items : List Sorted) : List ModuleItem :=
  (items.flatMap idle?).map fun idle => .strct idle.2.1

def taskItems (items : List Sorted) : List ModuleItem :=
  (items.flatMap task?).map fun task => .strct task.2.1

def frameworkItems (items : List Sorted) : List ModuleItem :=
  sharedItems items ++ (initItems items ++
    (idleItems items ++ (taskItems items ++ postInitItems items)))

def implItems (items : List Sorted) : List ModuleItem :=
  (items.filterMap taskImpl?).map fun taskImpl => .impl taskImpl.2

/-- The items that go through as they are. -/
def plainItems (items : List Sorted) : List ModuleItem :=
  (items.filterMap userInclude?).map .use ++ items.filterMap otherCode?

end Sorted

/-- Lists that add up are the same when they are the same for each single item. -/
theorem perm_of_singletons {α β : Type} {f g : List α → List β} {items : List α} (hnil : f [] = g [])
    (hf : ∀ l l', (f (l ++ l')).Perm (f l ++ f l')) (hg : ∀ l l', (g (l ++ l')).Perm (g l ++ g l'))
    (h : ∀ a ∈ items, f [a] = g [a]) : (f items).Perm (g items) := by
  induction items with
  | nil => rw [hnil]
  | cons a items ih =>
    rw [List.forall_mem_cons] at h
    have hrest : (f [a] ++ f items).Perm (g [a] ++ g items) := h.1 ▸ (ih h.2).append_left _
    exact (hf [a] items).trans (hrest.trans (hg [a] items).symm)

open Sorted in
/-- **Sorting the items loses none.** -/
theorem sorted_perm {items : List Sorted} (hread : ∀ item ∈ items, item.WellRead) :
    (items.map Sorted.item).Perm
      (plainItems items ++ (frameworkItems items ++ implItems items)) := by
  refine perm_of_singletons (f := List.map Sorted.item)
    (g := fun items => plainItems items ++ (frameworkItems items ++ implItems items)) rfl
    (fun _ _ => .of_eq List.map_append) (fun items items' => ?_) fun item hitem => ?_
  · rw [List.perm_iff_count]
    intro x
    simp only [plainItems, frameworkItems, sharedItems, initItems, idleItems, taskItems,
      postInitItems, implItems, List.flatMap_append, List.filterMap_append, List.map_append,
      List.count_append]
    omega
  · have hread := hread item hitem
    cases item with
    | init function attr | postInit function attr | shared strct attr =>
      obtain ⟨core, hcore⟩ := hread
      simp [plainItems, frameworkItems, sharedItems, initItems, idleItems, taskItems,
        postInitItems, implItems, hcore, Except.toOption, shared?, init?, postInit?, idle?, task?,
        taskImpl?, userInclude?, otherCode?, Sorted.item, List.filterMap_cons]
    | idle strct attr | task strct attr =>
      obtain ⟨args, hargs⟩ := hread
      simp [plainItems, frameworkItems, sharedItems, initItems, idleItems, taskItems,
        postInitItems, implItems, hargs, Except.toOption, shared?, init?, postInit?, idle?, task?,
        taskImpl?, userInclude?, otherCode?, Sorted.item, List.filterMap_cons]
    | taskImpl implementor implItem | userInclude other | otherCode item => rfl

/-! ## The parts of the app -/

/-- What the parser has constructed, before the partition by cores. -/
structure Parts where
  shared : List SharedResources
  inits : List InitTask
  postInits : List InitTask
  idles : List RticTask
  tasks : List RticTask

namespace Parts

/-- The parts on some of the cores. -/
def filter (p : Nat → Bool) (parts : Parts) : Parts where
  shared := parts.shared.filter (p ·.core)
  inits := parts.inits.filter (p ·.core)
  postInits := parts.postInits.filter (p ·.core)
  idles := parts.idles.filter (p ·.args.core)
  tasks := parts.tasks.filter (p ·.args.core)

/-- What is written out for them, in the order of `generate_sub_app`. -/
def generate (parts : Parts) : List ModuleItem :=
  parts.shared.flatMap (fun shared => [.strct shared.strct]) ++
    parts.inits.flatMap (fun init => [.fn init.body]) ++
    parts.idles.flatMap RticTask.generateTaskDef ++
    parts.tasks.flatMap RticTask.generateTaskDef ++
    parts.postInits.flatMap fun postInit => [.fn postInit.body]

/-- The items of the framework among it, -/
def framework (parts : Parts) : List ModuleItem :=
  parts.shared.map (fun shared => .strct shared.strct) ++
    (parts.inits.map (fun init => .fn init.body) ++
      (parts.idles.map (fun idle => .strct idle.taskStruct) ++
        (parts.tasks.map (fun task => .strct task.taskStruct) ++
          parts.postInits.map fun postInit => .fn postInit.body)))

/-- and the implementations. -/
def impls (parts : Parts) : List ItemImpl :=
  (parts.idles ++ parts.tasks).filterMap (·.structImpl)

theorem taskDefs_perm (tasks : List RticTask) :
    (tasks.flatMap RticTask.generateTaskDef).Perm
      (tasks.map (fun task => .strct task.taskStruct) ++
        (tasks.filterMap (·.structImpl)).map .impl) := by
  induction tasks with
  | nil => exact List.Perm.nil
  | cons task tasks ih =>
    rw [List.flatMap_cons, RticTask.generateTaskDef]
    cases himpl : task.structImpl with
    | none =>
      rw [List.filterMap_cons_none himpl]
      exact ih.cons _
    | some implItem =>
      rw [List.filterMap_cons_some himpl]
      refine List.Perm.cons _ ?_
      exact (ih.cons _).trans List.perm_middle.symm

theorem generate_perm (parts : Parts) :
    parts.generate.Perm (parts.framework ++ parts.impls.map .impl) := by
  rw [List.perm_iff_count]
  intro x
  have hidles := List.perm_iff_count.mp (taskDefs_perm parts.idles) x
  have htasks := List.perm_iff_count.mp (taskDefs_perm parts.tasks) x
  simp only [generate, framework, impls, List.count_append, List.filterMap_append,
    List.map_append, ← List.map_eq_flatMap] at hidles htasks ⊢
  omega

/-- **The cores of the app together have the parts below the number of cores.** -/
theorem flatMap_generate_perm (parts : Parts) (cores : Nat) :
    ((List.range cores).flatMap fun core => (parts.filter (· = core)).generate).Perm
      (parts.filter (· < cores)).generate := by
  unfold generate filter
  refine (List.flatMap_append_perm _ _ _).symm.trans ?_
  refine List.Perm.append ?_ (Partition.flatMap_range_filter InitTask.core cores _)
  refine (List.flatMap_append_perm _ _ _).symm.trans ?_
  refine List.Perm.append ?_
    (Partition.flatMap_range_filter (fun task : RticTask => task.args.core) cores _)
  refine (List.flatMap_append_perm _ _ _).symm.trans ?_
  refine List.Perm.append ?_
    (Partition.flatMap_range_filter (fun task : RticTask => task.args.core) cores _)
  refine (List.flatMap_append_perm _ _ _).symm.trans ?_
  exact List.Perm.append
    (Partition.flatMap_range_filter SharedResources.core cores _)
    (Partition.flatMap_range_filter InitTask.core cores _)

/-- The parser has found these parts in the items. -/
structure Of (items : List Sorted) (parts : Parts) : Prop where
  shared : constructSharedResources items = .ok parts.shared
  inits : constructInits items = .ok parts.inits
  postInits : constructPostInits items = .ok parts.postInits
  idles : constructIdleTasks items (items.filterMap Sorted.taskImpl?) = .ok parts.idles
  tasks : constructRticTasks items (items.filterMap Sorted.taskImpl?) = .ok parts.tasks

variable {items : List Sorted} {parts : Parts}

/-- A core is written out with its parts. -/
theorem Of.generateSubApp (h : parts.Of items) {core : Nat} {init : InitTask}
    (hinit : lookup InitTask.core parts.inits core = some init) :
    SubApp.generateSubApp {
      core := core
      shared := lookup SharedResources.core parts.shared core
      init := init
      postInit := lookup InitTask.core parts.postInits core
      idle := lookup (·.args.core) parts.idles core
      tasks := parts.tasks.filter (·.args.core = core) } =
    (parts.filter (· = core)).generate := by
  have hinits : parts.inits.filter (·.core = core) = [init] := by
    rw [← Partition.toList_find? (constructInits_eq h.inits).2]
    exact congrArg Option.toList hinit
  unfold SubApp.generateSubApp generate filter
  rw [hinits]
  simp only [lookup, Partition.toList_find? ((constructSharedResources_eq h.shared).2),
    Partition.toList_find? (constructPostInits_eq h.postInits).2,
    Partition.toList_find? (constructIdleTasks_eq h.idles).2, List.map_eq_flatMap]
  rfl

/-- The framework's items are all items of the framework. -/
theorem Of.framework_eq (h : parts.Of items) : parts.framework = Sorted.frameworkItems items := by
  unfold framework Sorted.frameworkItems Sorted.sharedItems Sorted.initItems Sorted.idleItems
    Sorted.taskItems Sorted.postInitItems
  rw [← (constructSharedResources_eq h.shared).1, ← (constructInits_eq h.inits).1,
    ← (constructPostInits_eq h.postInits).1, ← (constructIdleTasks_eq h.idles).1,
    ← (constructRticTasks_eq h.tasks).1]
  simp only [List.map_map]
  rfl

theorem Of.wellRead (h : parts.Of items) : ∀ item ∈ items, item.WellRead := by
  intro item hitem
  cases item with
  | shared strct attr =>
    obtain ⟨out, out', hstep⟩ := exists_of_foldlM_ok h.shared _ hitem
    obtain ⟨core, hcore, -⟩ := bind_eq_ok.mp hstep
    exact ⟨core, hcore⟩
  | init function attr =>
    obtain ⟨inits, hloop, -⟩ := bind_eq_ok.mp h.inits
    obtain ⟨out, out', hstep⟩ := exists_of_foldlM_ok hloop _ hitem
    obtain ⟨core, hcore, -⟩ := bind_eq_ok.mp hstep
    exact ⟨core, hcore⟩
  | postInit function attr =>
    obtain ⟨out, out', hstep⟩ := exists_of_foldlM_ok h.postInits _ hitem
    obtain ⟨core, hcore, -⟩ := bind_eq_ok.mp hstep
    exact ⟨core, hcore⟩
  | idle strct attr =>
    obtain ⟨out, out', hstep⟩ := exists_of_foldlM_ok h.idles _ hitem
    obtain ⟨args, hargs, -⟩ := bind_eq_ok.mp hstep
    exact ⟨args, hargs⟩
  | task strct attr =>
    obtain ⟨out, out', hstep⟩ := exists_of_foldlM_ok h.tasks _ hitem
    obtain ⟨args, hargs, -⟩ := bind_eq_ok.mp hstep
    exact ⟨args, hargs⟩
  | taskImpl implementor implItem | userInclude other | otherCode item => trivial

end Parts

/-- What a successful parse has found, and what is written out for it. -/
theorem parse_generate {args : AppArgs} {items : List ModuleItem} {app : App}
    (h : App.parse args items = .ok app) :
    ∃ parts : Parts, parts.Of (items.map ModuleItem.sort) ∧
      Core.App.checkImpls ((items.map ModuleItem.sort).filterMap Sorted.implName?) = .ok () ∧
      app.generate.Perm (Sorted.plainItems (items.map ModuleItem.sort) ++
        (parts.filter (· < args.cores)).generate) := by
  obtain ⟨_, himpls, h⟩ := bind_eq_ok.mp h
  obtain ⟨shared, hshared, h⟩ := bind_eq_ok.mp h
  obtain ⟨inits, hinits, h⟩ := bind_eq_ok.mp h
  obtain ⟨postInits, hpostInits, h⟩ := bind_eq_ok.mp h
  obtain ⟨idles, hidles, h⟩ := bind_eq_ok.mp h
  obtain ⟨tasks, htasks, h⟩ := bind_eq_ok.mp h
  obtain ⟨subApps, hsubs, h⟩ := bind_eq_ok.mp h
  cases h
  have hof : Parts.Of (items.map ModuleItem.sort) ⟨shared, inits, postInits, idles, tasks⟩ :=
    ⟨hshared, hinits, hpostInits, hidles, htasks⟩
  refine ⟨_, hof, himpls, ?_⟩
  have hgenerate : subApps.flatMap SubApp.generateSubApp = (List.range args.cores).flatMap
      fun core => (Parts.filter (· = core) ⟨shared, inits, postInits, idles, tasks⟩).generate := by
    refine flatMap_of_mapM_ok hsubs fun core sub hsub => ?_
    split at hsub
    · rename_i init hinit
      cases hsub
      exact hof.generateSubApp hinit
    · cases hsub
  rw [App.generate, Sorted.plainItems, hgenerate]
  exact (Parts.flatMap_generate_perm _ _).append_left _

/-! ## Cores -/

/-- The core that an item of the framework names. -/
def Sorted.core? : Sorted → Option Nat
  | .shared _ attr | .init _ attr | .postInit _ attr => (coreArg attr).toOption
  | .task _ attr | .idle _ attr => (taskArgs attr).toOption.map (·.core)
  | _ => none

namespace Parts

variable {items : List Sorted} {parts : Parts}

/-- The cores of all parts. -/
def cores (parts : Parts) : List Nat :=
  parts.shared.map (·.core) ++ (parts.inits.map (·.core) ++ (parts.idles.map (·.args.core) ++
    (parts.tasks.map (·.args.core) ++ parts.postInits.map (·.core))))

theorem Of.cores_perm (h : parts.Of items) : parts.cores.Perm (items.filterMap Sorted.core?) := by
  have hread := h.wellRead
  have hcores : parts.cores = (items.flatMap Sorted.shared?).map Prod.fst ++
      ((items.flatMap Sorted.init?).map Prod.fst ++ ((items.flatMap Sorted.idle?).map Prod.fst ++
        ((items.flatMap Sorted.task?).map Prod.fst ++
          (items.flatMap Sorted.postInit?).map Prod.fst))) := by
    rw [← (constructSharedResources_eq h.shared).1, ← (constructInits_eq h.inits).1,
      ← (constructPostInits_eq h.postInits).1, ← (constructIdleTasks_eq h.idles).1,
      ← (constructRticTasks_eq h.tasks).1]
    simp only [List.map_map]
    rfl
  rw [hcores]
  clear h hcores
  refine perm_of_singletons (f := fun items => (items.flatMap Sorted.shared?).map Prod.fst ++
      ((items.flatMap Sorted.init?).map Prod.fst ++ ((items.flatMap Sorted.idle?).map Prod.fst ++
        ((items.flatMap Sorted.task?).map Prod.fst ++
          (items.flatMap Sorted.postInit?).map Prod.fst))))
    (g := List.filterMap Sorted.core?) rfl (fun items items' => ?_)
    (fun _ _ => .of_eq List.filterMap_append) fun item hitem => ?_
  · rw [List.perm_iff_count]
    intro x
    simp only [List.flatMap_append, List.map_append, List.count_append]
    omega
  · have hread := hread item hitem
    cases item with
    | init function attr | postInit function attr | shared strct attr =>
      obtain ⟨core, hcore⟩ := hread
      simp [hcore, Except.toOption, Sorted.shared?, Sorted.init?, Sorted.postInit?, Sorted.idle?,
        Sorted.task?, Sorted.core?]
    | idle strct attr | task strct attr =>
      obtain ⟨args, hargs⟩ := hread
      simp [hargs, Except.toOption, Sorted.shared?, Sorted.init?, Sorted.postInit?, Sorted.idle?,
        Sorted.task?, Sorted.core?]
    | taskImpl implementor implItem | userInclude other | otherCode item => rfl

theorem filter_eq_self {p : Nat → Bool} (h : ∀ core ∈ parts.cores, p core) :
    parts.filter p = parts := by
  simp only [cores, List.mem_append, List.mem_map] at h
  unfold filter
  rw [List.filter_eq_self.mpr fun s hs => h _ (.inl ⟨s, hs, rfl⟩),
    List.filter_eq_self.mpr fun s hs => h _ (.inr (.inl ⟨s, hs, rfl⟩)),
    List.filter_eq_self.mpr fun s hs => h _ (.inr (.inr (.inr (.inr ⟨s, hs, rfl⟩)))),
    List.filter_eq_self.mpr fun s hs => h _ (.inr (.inr (.inl ⟨s, hs, rfl⟩))),
    List.filter_eq_self.mpr fun s hs => h _ (.inr (.inr (.inr (.inl ⟨s, hs, rfl⟩))))]

/-- The framework is complete exactly when no part is left out. -/
theorem framework_filter_perm_iff (p : Nat → Bool) :
    (parts.filter p).framework.Perm parts.framework ↔ ∀ core ∈ parts.cores, p core := by
  constructor
  · intro h
    have hlength := h.length_eq
    simp only [framework, filter, List.length_append, List.length_map] at hlength
    have hshared := List.length_filter_le (p ·.core) parts.shared
    have hinits := List.length_filter_le (p ·.core) parts.inits
    have hpostInits := List.length_filter_le (p ·.core) parts.postInits
    have hidles := List.length_filter_le (p ·.args.core) parts.idles
    have htasks := List.length_filter_le (p ·.args.core) parts.tasks
    -- no filter makes a list longer, and together they keep the length
    have hshared' : (parts.shared.filter (p ·.core)).length = parts.shared.length := by omega
    have hinits' : (parts.inits.filter (p ·.core)).length = parts.inits.length := by omega
    have hpostInits' : (parts.postInits.filter (p ·.core)).length = parts.postInits.length := by
      omega
    have hidles' : (parts.idles.filter (p ·.args.core)).length = parts.idles.length := by omega
    have htasks' : (parts.tasks.filter (p ·.args.core)).length = parts.tasks.length := by omega
    intro core hcore
    simp only [cores, List.mem_append, List.mem_map] at hcore
    rcases hcore with ⟨s, hs, rfl⟩ | ⟨s, hs, rfl⟩ | ⟨s, hs, rfl⟩ | ⟨s, hs, rfl⟩ | ⟨s, hs, rfl⟩
    · exact List.length_filter_eq_length_iff.mp hshared' s hs
    · exact List.length_filter_eq_length_iff.mp hinits' s hs
    · exact List.length_filter_eq_length_iff.mp hidles' s hs
    · exact List.length_filter_eq_length_iff.mp htasks' s hs
    · exact List.length_filter_eq_length_iff.mp hpostInits' s hs
  · intro h
    rw [filter_eq_self h]

end Parts

/-! ## Implementations -/

/-- The type and the trait of the implementation that the parser looks for. -/
def Sorted.claim? : Sorted → Option (Ident × Ident)
  | .task strct attr => (taskArgs attr).toOption.map fun args => (strct.ident, args.taskTrait)
  | .idle strct _ => some (strct.ident, idleTraitTy)
  | _ => none

/-- The implementation is the one that is looked for. -/
def ItemImpl.Claimed (implItem : ItemImpl) (claim : Ident × Ident) : Bool :=
  captureTraitImpl implItem = some claim.1 ∧ implTraitStr implItem = some claim.2

/-- The trait and the type of an implementation, by their names. -/
def implPair? : Item → Option (Ident × Ident)
  | .impl traitTy implementor => some (traitTy, implementor)
  | _ => none

theorem duplicateImpl_none {seen : List (Ident × Ident)} {items : List Item}
    (h : Core.App.duplicateImpl seen items = none) :
    (items.filterMap implPair?).Nodup ∧ ∀ name ∈ items.filterMap implPair?, name ∉ seen := by
  induction items generalizing seen with
  | nil => simp
  | cons item items ih =>
    cases item with
    | impl traitTy implementor =>
      rw [Core.App.duplicateImpl, Option.or_eq_none_iff] at h
      obtain ⟨hrest, hseen⟩ := h
      obtain ⟨hnodup, hfresh⟩ := ih hrest
      have hnot : (traitTy, implementor) ∉ seen := by
        intro hmem
        rw [if_pos hmem] at hseen
        cases hseen
      have hcons : (Item.impl traitTy implementor :: items).filterMap implPair? =
        (traitTy, implementor) :: items.filterMap implPair? := rfl
      rw [hcons]
      constructor
      · refine List.nodup_cons.mpr ⟨fun hmem => ?_, hnodup⟩
        exact hfresh _ hmem List.mem_cons_self
      · intro name hname
        rcases List.mem_cons.mp hname with rfl | hname
        · exact hnot
        · exact fun hmem => hfresh name hname (List.mem_cons_of_mem _ hmem)
    | init ident core | postInit ident core | task strct attr | idle strct attr
    | shared strct core fields => exact ih h

/-- The name under which the parser compares implementations. -/
def implKey (taskImpl : Ident × ItemImpl) : Ident × Ident :=
  ((implTraitStr taskImpl.2).getD "?", taskImpl.1)

theorem implKey_nodup {items : List Sorted}
    (h : Core.App.checkImpls (items.filterMap Sorted.implName?) = .ok ()) :
    ((items.filterMap Sorted.taskImpl?).map implKey).Nodup := by
  have hnone : Core.App.duplicateImpl [] (items.filterMap Sorted.implName?) = none := by
    unfold Core.App.checkImpls at h
    split at h
    · cases h
    · assumption
  have hnodup := (duplicateImpl_none hnone).1
  rw [List.filterMap_filterMap] at hnodup
  rw [List.map_filterMap]
  refine (congrArg List.Nodup (congrArg (List.filterMap · items) (funext fun item => ?_))).mp hnodup
  cases item <;> rfl

theorem taskImpl?_sort {item : ModuleItem} {taskImpl : Ident × ItemImpl} :
    item.sort.taskImpl? = some taskImpl ↔
      item = .impl taskImpl.2 ∧ captureTraitImpl taskImpl.2 = some taskImpl.1 := by
  cases item with
  | fn function =>
    show (sortFn function).taskImpl? = some taskImpl ↔ _
    unfold sortFn
    split
    · simp [Sorted.taskImpl?]
    · split <;> simp [Sorted.taskImpl?]
  | strct itemStruct =>
    show (sortStruct itemStruct).taskImpl? = some taskImpl ↔ _
    unfold sortStruct
    split
    · simp [Sorted.taskImpl?]
    · split
      · simp [Sorted.taskImpl?]
      · split <;> simp [Sorted.taskImpl?]
  | impl implItem =>
    obtain ⟨implementor, implItem'⟩ := taskImpl
    simp only [ModuleItem.sort]
    cases hcapture : captureTraitImpl implItem with
    | some implementor' =>
      simp only [Sorted.taskImpl?, Option.some.injEq, Prod.mk.injEq, ModuleItem.impl.injEq]
      constructor
      · rintro ⟨rfl, rfl⟩
        exact ⟨rfl, hcapture⟩
      · rintro ⟨rfl, h⟩
        exact ⟨Option.some.inj (hcapture.symm.trans h), rfl⟩
    | none =>
      simp only [Sorted.taskImpl?, ModuleItem.impl.injEq, reduceCtorEq, false_iff, not_and]
      rintro rfl h
      rw [hcapture] at h
      cases h
  | use other | other other => simp [ModuleItem.sort, Sorted.taskImpl?]

/-- A captured implementation is under the name of its type. -/
theorem mem_taskImpls {items : List ModuleItem} {taskImpl : Ident × ItemImpl} :
    taskImpl ∈ (items.map ModuleItem.sort).filterMap Sorted.taskImpl? ↔
      .impl taskImpl.2 ∈ items ∧ captureTraitImpl taskImpl.2 = some taskImpl.1 := by
  rw [List.filterMap_map, List.mem_filterMap]
  constructor
  · rintro ⟨item, hitem, h⟩
    obtain ⟨rfl, hcapture⟩ := taskImpl?_sort.mp h
    exact ⟨hitem, hcapture⟩
  · rintro ⟨hitem, hcapture⟩
    exact ⟨_, hitem, taskImpl?_sort.mpr ⟨rfl, hcapture⟩⟩

/-- The implementation that a claim finds is the one that is claimed. -/
theorem findImpl_eq_some {taskImpls : List (Ident × ItemImpl)}
    (hnodup : (taskImpls.map implKey).Nodup)
    (hcapture : ∀ taskImpl ∈ taskImpls, captureTraitImpl taskImpl.2 = some taskImpl.1)
    {taskImpl : Ident × ItemImpl} (hmem : taskImpl ∈ taskImpls) (claim : Ident × Ident) :
    findImpl taskImpls claim.1 claim.2 = some taskImpl.2 ↔ taskImpl.2.Claimed claim := by
  unfold findImpl ItemImpl.Claimed
  rw [Option.map_eq_some_iff, decide_eq_true_eq, hcapture taskImpl hmem, Option.some.injEq]
  constructor
  · rintro ⟨found, hfind, heq⟩
    have hfound := List.find?_some hfind
    rw [decide_eq_true_eq] at hfound
    have hfst := (hcapture found (List.mem_of_find?_eq_some hfind)).symm
    rw [heq, hcapture taskImpl hmem, Option.some.injEq] at hfst
    rw [heq] at hfound
    exact ⟨hfst.symm.trans hfound.1, hfound.2⟩
  · rintro ⟨hfst, htrait⟩
    have hsome : (taskImpls.find? fun found =>
        found.1 = claim.1 ∧ implTraitStr found.2 = some claim.2).isSome := by
      rw [List.find?_isSome]
      exact ⟨taskImpl, hmem, by simp [hfst, htrait]⟩
    obtain ⟨found, hfind⟩ := Option.isSome_iff_exists.mp hsome
    have hfound := List.find?_some hfind
    rw [decide_eq_true_eq] at hfound
    refine ⟨found, hfind, ?_⟩
    -- no two implementations have one name
    have hkey : implKey found = implKey taskImpl := by
      unfold implKey
      rw [hfound.1, hfound.2, hfst, htrait]
    rw [List.inj_on_of_nodup_map hnodup (List.mem_of_find?_eq_some hfind) hmem hkey]

/-- The implementation that a task has looked for. -/
def RticTask.claim (task : RticTask) : Ident × Ident := (task.taskStruct.ident, task.args.taskTrait)

namespace Parts

theorem Of.claims_perm {items : List Sorted} {parts : Parts} (h : parts.Of items) :
    ((parts.idles ++ parts.tasks).map RticTask.claim).Perm (items.filterMap Sorted.claim?) := by
  have hread := h.wellRead
  have hclaims : (parts.idles ++ parts.tasks).map RticTask.claim =
      (items.flatMap Sorted.idle? ++ items.flatMap Sorted.task?).map
        fun header => (header.2.1.ident, header.2.2) := by
    rw [← (constructIdleTasks_eq h.idles).1, ← (constructRticTasks_eq h.tasks).1, ← List.map_append,
      List.map_map]
    rfl
  rw [hclaims]
  clear h hclaims
  refine perm_of_singletons (f := fun items =>
      (items.flatMap Sorted.idle? ++ items.flatMap Sorted.task?).map
        fun header => (header.2.1.ident, header.2.2))
    (g := List.filterMap Sorted.claim?) rfl (fun items items' => ?_)
    (fun _ _ => .of_eq List.filterMap_append) fun item hitem => ?_
  · rw [List.perm_iff_count]
    intro x
    simp only [List.flatMap_append, List.map_append, List.count_append]
    omega
  · have hread := hread item hitem
    cases item with
    | idle strct attr | task strct attr =>
      obtain ⟨args, hargs⟩ := hread
      simp [hargs, Except.toOption, Sorted.idle?, Sorted.task?, Sorted.claim?]
    | init function attr | postInit function attr | shared strct attr
    | taskImpl implementor implItem | userInclude other | otherCode item => rfl

variable {items : List ModuleItem} {parts : Parts}

theorem Of.linked (h : parts.Of (items.map ModuleItem.sort)) : ∀ t ∈ parts.idles ++ parts.tasks,
    t.Linked ((items.map ModuleItem.sort).filterMap Sorted.taskImpl?) := by
  intro t ht
  rcases List.mem_append.mp ht with ht | ht
  · exact constructIdleTasks_linked h.idles t ht
  · exact (constructRticTasks_eq h.tasks).2 t ht

/-- An implementation is written out once for each claim to it. -/
theorem Of.count_impls (h : parts.Of (items.map ModuleItem.sort))
    (hnames : Core.App.checkImpls ((items.map ModuleItem.sort).filterMap Sorted.implName?) = .ok ())
    {taskImpl : Ident × ItemImpl}
    (hmem : taskImpl ∈ (items.map ModuleItem.sort).filterMap Sorted.taskImpl?) :
    parts.impls.count taskImpl.2 =
      (items.filterMap (·.sort.claim?)).countP taskImpl.2.Claimed := by
  have hclaims : (items.filterMap (·.sort.claim?)) =
      (items.map ModuleItem.sort).filterMap Sorted.claim? := by
    rw [List.filterMap_map]
    rfl
  rw [hclaims, ← h.claims_perm.countP_eq, List.countP_map, impls, List.count_filterMap]
  refine List.countP_congr fun t ht => ?_
  rw [beq_iff_eq, h.linked t ht]
  exact findImpl_eq_some (implKey_nodup hnames) (fun found hfound => (mem_taskImpls.mp hfound).2)
    hmem t.claim

/-- What a task has found is an implementation of the module. -/
theorem Of.impls_subset (h : parts.Of (items.map ModuleItem.sort)) : ∀ implItem ∈ parts.impls,
    implItem ∈ ((items.map ModuleItem.sort).filterMap Sorted.taskImpl?).map Prod.snd := by
  intro implItem himpl
  obtain ⟨t, ht, hstruct⟩ := List.mem_filterMap.mp himpl
  rw [h.linked t ht] at hstruct
  obtain ⟨found, hfind, rfl⟩ := Option.map_eq_some_iff.mp hstruct
  exact List.mem_map_of_mem (List.mem_of_find?_eq_some hfind)

end Parts

/-! ## Conservation -/

/-- An item without the attribute that tells the framework what it is. -/
def ModuleItem.stripped (item : ModuleItem) : ModuleItem := item.sort.item

def ModuleItem.isImpl : ModuleItem → Bool
  | .impl _ => true
  | _ => false

theorem Parts.framework_not_impl (parts : Parts) :
    ∀ item ∈ parts.framework, (!item.isImpl) = true := by
  intro item hitem
  simp only [Parts.framework, List.mem_append, List.mem_map] at hitem
  rcases hitem with ⟨s, -, rfl⟩ | ⟨s, -, rfl⟩ | ⟨s, -, rfl⟩ | ⟨s, -, rfl⟩ | ⟨s, -, rfl⟩ <;> rfl

theorem taskImpls_nodup {items : List ModuleItem}
    (hnames : Core.App.checkImpls ((items.map ModuleItem.sort).filterMap Sorted.implName?) =
      .ok ()) :
    (((items.map ModuleItem.sort).filterMap Sorted.taskImpl?).map Prod.snd).Nodup := by
  refine List.Nodup.map_on ?_ (implKey_nodup hnames).of_map
  intro taskImpl hmem taskImpl' hmem' heq
  have hfst := (mem_taskImpls.mp hmem).2
  rw [heq, (mem_taskImpls.mp hmem').2, Option.some.injEq] at hfst
  exact Prod.ext hfst.symm heq

/-- **Every item is written out once exactly when every item is on a core of the app and every
captured implementation is claimed once.** -/
theorem items_accounted_iff {args : AppArgs} {items : List ModuleItem} {app : App}
    (h : App.parse args items = .ok app) :
    app.generate.Perm (items.map ModuleItem.stripped) ↔
      (∀ item ∈ items, ∀ core, item.sort.core? = some core → core < args.cores) ∧
      ∀ implItem, .impl implItem ∈ items → (captureTraitImpl implItem).isSome →
        (items.filterMap (·.sort.claim?)).countP implItem.Claimed = 1 := by
  obtain ⟨parts, hof, hnames, hgenerate⟩ := parse_generate h
  have hsorted := sorted_perm hof.wellRead
  rw [List.map_map] at hsorted
  change (items.map ModuleItem.stripped).Perm _ at hsorted
  have himpls : Sorted.implItems (items.map ModuleItem.sort) =
      (((items.map ModuleItem.sort).filterMap Sorted.taskImpl?).map Prod.snd).map .impl := by
    rw [List.map_map]
    rfl
  -- what goes through as it is plays no part; structs and functions are apart from impls
  have hsplit : app.generate.Perm (items.map ModuleItem.stripped) ↔
      (parts.filter (· < args.cores)).framework.Perm parts.framework ∧
        (parts.filter (· < args.cores)).impls.Perm
          (((items.map ModuleItem.sort).filterMap Sorted.taskImpl?).map Prod.snd) := by
    rw [hgenerate.congr_left, hsorted.congr_right, List.perm_append_left_iff,
      (Parts.generate_perm _).congr_left, himpls, ← hof.framework_eq,
      ← List.map_perm_map_iff (f := ModuleItem.impl) (fun _ _ => ModuleItem.impl.inj)]
    refine Partition.perm_append_iff (p := fun item => !item.isImpl) ?_ ?_ ?_ ?_
    · exact Parts.framework_not_impl _
    · exact Parts.framework_not_impl _
    · intro item hitem
      obtain ⟨implItem, -, rfl⟩ := List.mem_map.mp hitem
      simp [ModuleItem.isImpl]
    · intro item hitem
      obtain ⟨implItem, -, rfl⟩ := List.mem_map.mp hitem
      simp [ModuleItem.isImpl]
  have hcores : (∀ core ∈ parts.cores, core < args.cores) ↔
      ∀ item ∈ items, ∀ core, item.sort.core? = some core → core < args.cores := by
    have hmem : ∀ core, core ∈ parts.cores ↔ ∃ item ∈ items, item.sort.core? = some core := by
      intro core
      rw [hof.cores_perm.mem_iff, List.filterMap_map, List.mem_filterMap]
      rfl
    constructor
    · intro hall item hitem core hcore
      exact hall core ((hmem core).mpr ⟨item, hitem, hcore⟩)
    · intro hall core hcore
      obtain ⟨item, hitem, hcore⟩ := (hmem core).mp hcore
      exact hall item hitem core hcore
  rw [hsplit, Parts.framework_filter_perm_iff]
  simp only [decide_eq_true_eq]
  rw [hcores]
  refine and_congr_right fun hall => ?_
  rw [Parts.filter_eq_self (by simpa using hcores.mpr hall),
    Partition.perm_iff_count_eq_one (taskImpls_nodup hnames) hof.impls_subset]
  constructor
  · intro hone implItem hitem hcaptured
    obtain ⟨implementor, hcapture⟩ := Option.isSome_iff_exists.mp hcaptured
    have hmem := mem_taskImpls.mpr (show .impl (implementor, implItem).2 ∈ items ∧ _ from
      ⟨hitem, hcapture⟩)
    rw [← hof.count_impls hnames hmem]
    exact hone _ (List.mem_map_of_mem hmem)
  · intro hone implItem hitem
    obtain ⟨taskImpl, hmem, rfl⟩ := List.mem_map.mp hitem
    obtain ⟨hitem, hcapture⟩ := mem_taskImpls.mp hmem
    rw [hof.count_impls hnames hmem]
    exact hone _ hitem (by rw [hcapture]; rfl)

/-- A module with `init`, a struct and the implementation of an ordinary trait for it. -/
def displayModule : List ModuleItem := [
  .fn ⟨"init", [⟨["init"], .path⟩], "() -> TaskInits"⟩,
  .strct ⟨"Foo", [], [], ";"⟩,
  .impl ⟨some ["fmt", "Display"], some ["Foo"], "..."⟩]

/-- The implementation of the ordinary trait is lost. -/
theorem display_lost : ∃ app, App.parse ⟨["pac"], 1⟩ displayModule = .ok app ∧
    ¬ app.generate.Perm (displayModule.map ModuleItem.stripped) :=
  ⟨_, rfl, by decide⟩

/-- The same struct beside a task, its implementation and a shared struct. -/
def uartModule : List ModuleItem := displayModule.take 2 ++ [
  .strct ⟨"Shared", [⟨["shared"], .path⟩], [some "counter"], "..."⟩,
  .strct ⟨"Uart", [⟨["task"], .list [("binds", some (.path ["USART1"])),
    ("shared", some (.array [some "counter"]))]⟩], [], ";"⟩,
  .impl ⟨some ["RticTask"], some ["Uart"], "..."⟩]

theorem uart_accounted : ∃ app, App.parse ⟨["pac"], 1⟩ uartModule = .ok app ∧
    app.generate.Perm (uartModule.map ModuleItem.stripped) := by
  have hparse : App.parse ⟨["pac"], 1⟩ uartModule = .ok _ := rfl
  refine ⟨_, hparse, (items_accounted_iff hparse).mpr ⟨?_, ?_⟩⟩
  · have hcores : ∀ item ∈ uartModule, ∀ core ∈ item.sort.core?, core < 1 := by decide +kernel
    exact fun item hitem core hcore => hcores item hitem core hcore
  · intro implItem hmem _
    have heq : implItem = ⟨some ["RticTask"], some ["Uart"], "..."⟩ := by
      simpa [uartModule, displayModule] using hmem
    rw [heq]
    decide +kernel

end Rticx.Core.Source
