import Rticx.Core.Source

/-!
# Names and arguments of the items

The two models of `App::parse` agree: what `Core.App.parse` makes of the names and arguments is
what `Source.App.parse` makes of the items, without the items.
-/

namespace Rticx.Core.Source

open Rticx.Core Rticx.Lib.Except

/-! ## Erasure -/

def InitTask.erase (init : InitTask) : Core.InitTask := ⟨init.core, init.body.ident⟩

def RticTask.erase (task : RticTask) : Core.RticTask := ⟨task.args, task.taskStruct.ident⟩

def SharedResources.erase (shared : SharedResources) : Core.SharedResources :=
  ⟨shared.core, shared.strct.ident, shared.resources⟩

def SubApp.erase (app : SubApp) : Core.SubApp where
  core := app.core
  shared := app.shared.map SharedResources.erase
  init := app.init.erase
  postInit := app.postInit.map InitTask.erase
  idle := app.idle.map RticTask.erase
  tasks := app.tasks.map RticTask.erase

def App.erase (app : App) : Core.App where
  args := app.args
  subApps := app.subApps.map SubApp.erase

/-- The values of the arguments of an attribute that can be read. -/
def Attribute.taskAttr (attr : Attribute) : TaskAttr :=
  ((fromMeta attr).toOption.map RticAttr.taskAttr).getD {}

/-- A sorted item by its name and the arguments of its attribute. -/
def Sorted.erase : Sorted → Option Item
  | .init function attr => some (.init function.ident attr.taskAttr.core)
  | .postInit function attr => some (.postInit function.ident attr.taskAttr.core)
  | .task strct attr => some (.task strct.ident attr.taskAttr)
  | .shared strct attr => some (.shared strct.ident attr.taskAttr.core strct.fields)
  | .idle strct attr => some (.idle strct.ident attr.taskAttr)
  | .taskImpl implementor implItem =>
    some (.impl ((implTraitStr implItem).getD "?") implementor)
  | _ => none

/-- The map of a core, with its key beside each value. -/
def keyed {α β : Type} (key : α → Nat) (erase : α → β) (out : List α) : List (Nat × β) :=
  out.map fun a => (key a, erase a)

section

variable {α β : Type} {key : α → Nat} {erase : α → β} {out out' : List α}

theorem lookup_keyed (core : Nat) :
    Core.App.lookup (keyed key erase out) core = (lookup key out core).map erase := by
  unfold Core.App.lookup lookup keyed
  rw [List.find?_map, Option.map_map]
  rfl

/-- Adding a value adds the erased value. -/
theorem insert_keyed {what : String} {core : Nat} {value : Except String α}
    {value' : Except String β} (h : insert key what out core value = .ok out')
    (hvalue : ∀ a, value = .ok a → key a = core ∧ value' = .ok (erase a)) :
    Core.App.insert what (keyed key erase out) core value' = .ok (keyed key erase out') := by
  unfold insert at h
  unfold Core.App.insert
  rw [lookup_keyed, Option.isSome_map]
  split at h
  · cases h
  · rename_i hnone
    obtain ⟨a, ha, rfl⟩ := map_eq_ok.mp h
    obtain ⟨rfl, hvalue'⟩ := hvalue a ha
    rw [if_neg hnone, hvalue']
    unfold keyed
    rw [List.map_append]
    rfl

end

/-! ## The arguments -/

theorem takeCore_of_coreArg {attr : Attribute} {core : Nat} (h : coreArg attr = .ok core) :
    takeCore attr.taskAttr.core = .ok core := by
  obtain ⟨rticAttr, hmeta, h⟩ := bind_eq_ok.mp h
  obtain ⟨_, -, h⟩ := bind_eq_ok.mp h
  obtain ⟨value, hvalue, h⟩ := bind_eq_ok.mp h
  cases h
  unfold Attribute.taskAttr
  rw [hmeta]
  exact map_eq_ok.mpr ⟨value, RticAttr.takeInt_intValue hvalue, rfl⟩

theorem parse_of_taskArgs {attr : Attribute} {args : TaskArgs} (h : taskArgs attr = .ok args) :
    TaskArgs.parse attr.taskAttr = .ok args := by
  obtain ⟨rticAttr, hmeta, h⟩ := bind_eq_ok.mp h
  unfold Attribute.taskAttr
  rw [hmeta]
  exact TaskArgs.parse_taskAttr h

/-! ## The loops -/

section

variable {items : List Sorted} {taskImpls : List (Ident × ItemImpl)}

theorem constructSharedResources_erase {out : List SharedResources}
    (h : constructSharedResources items = .ok out) :
    Core.App.constructSharedResources (items.filterMap Sorted.erase) =
      .ok (keyed SharedResources.core SharedResources.erase out) := by
  refine foldlM_simulates (e := keyed SharedResources.core SharedResources.erase) ?_ h
  intro item _ out out' hstep
  cases item with
  | shared strct attr =>
    obtain ⟨core, hcore, hstep⟩ := bind_eq_ok.mp hstep
    refine bind_eq_ok.mpr ⟨core, takeCore_of_coreArg hcore, ?_⟩
    refine insert_keyed hstep fun shared hshared => ?_
    obtain ⟨resources, hresources, hshared⟩ := bind_eq_ok.mp hshared
    cases hshared
    exact ⟨rfl, bind_eq_ok.mpr ⟨resources, hresources, rfl⟩⟩
  | init function attr | postInit function attr | task strct attr | idle strct attr
  | taskImpl implementor implItem | userInclude other | otherCode item =>
    cases hstep
    rfl

theorem constructInits_erase {out : List InitTask} (h : constructInits items = .ok out) :
    Core.App.constructInits (items.filterMap Sorted.erase) =
      .ok (keyed InitTask.core InitTask.erase out) := by
  obtain ⟨out', hloop, h⟩ := bind_eq_ok.mp h
  split at h
  · cases h
  rename_i hne
  cases h
  refine bind_eq_ok.mpr ⟨keyed InitTask.core InitTask.erase out, ?_, ?_⟩
  · refine foldlM_simulates (e := keyed InitTask.core InitTask.erase) ?_ hloop
    intro item _ out out' hstep
    cases item with
    | init function attr =>
      obtain ⟨core, hcore, hstep⟩ := bind_eq_ok.mp hstep
      refine bind_eq_ok.mpr ⟨core, takeCore_of_coreArg hcore, ?_⟩
      refine insert_keyed hstep fun init hinit => ?_
      cases hinit
      exact ⟨rfl, rfl⟩
    | shared strct attr | postInit function attr | task strct attr | idle strct attr
    | taskImpl implementor implItem | userInclude other | otherCode item =>
      cases hstep
      rfl
  · have hempty : (keyed InitTask.core InitTask.erase out).isEmpty = out.isEmpty :=
      List.isEmpty_map
    rw [hempty, if_neg hne]

theorem constructPostInits_erase {out : List InitTask} (h : constructPostInits items = .ok out) :
    Core.App.constructPostInits (items.filterMap Sorted.erase) =
      .ok (keyed InitTask.core InitTask.erase out) := by
  refine foldlM_simulates (e := keyed InitTask.core InitTask.erase) ?_ h
  intro item _ out out' hstep
  cases item with
  | postInit function attr =>
    obtain ⟨core, hcore, hstep⟩ := bind_eq_ok.mp hstep
    refine bind_eq_ok.mpr ⟨core, takeCore_of_coreArg hcore, ?_⟩
    refine insert_keyed hstep fun init hinit => ?_
    cases hinit
    exact ⟨rfl, rfl⟩
  | shared strct attr | init function attr | task strct attr | idle strct attr
  | taskImpl implementor implItem | userInclude other | otherCode item =>
    cases hstep
    rfl

theorem constructIdleTasks_erase {out : List RticTask}
    (h : constructIdleTasks items taskImpls = .ok out) :
    Core.App.constructIdleTasks (items.filterMap Sorted.erase) =
      .ok (keyed (·.args.core) RticTask.erase out) := by
  refine foldlM_simulates (e := keyed (·.args.core) RticTask.erase) ?_ h
  intro item _ out out' hstep
  cases item with
  | idle strct attr =>
    obtain ⟨args, hargs, hstep⟩ := bind_eq_ok.mp hstep
    refine bind_eq_ok.mpr ⟨args, parse_of_taskArgs hargs, ?_⟩
    refine insert_keyed hstep fun idle hidle => ?_
    cases hidle
    exact ⟨rfl, rfl⟩
  | shared strct attr | init function attr | postInit function attr | task strct attr
  | taskImpl implementor implItem | userInclude other | otherCode item =>
    cases hstep
    rfl

theorem constructRticTasks_erase {out : List RticTask}
    (h : constructRticTasks items taskImpls = .ok out) :
    Core.App.constructRticTasks (items.filterMap Sorted.erase) =
      .ok (out.map RticTask.erase) := by
  refine foldlM_simulates (e := List.map RticTask.erase) ?_ h
  intro item _ out out' hstep
  cases item with
  | task strct attr =>
    obtain ⟨args, hargs, hstep⟩ := bind_eq_ok.mp hstep
    cases hstep
    refine bind_eq_ok.mpr ⟨args, parse_of_taskArgs hargs, ?_⟩
    rw [List.map_append]
    rfl
  | shared strct attr | init function attr | postInit function attr | idle strct attr
  | taskImpl implementor implItem | userInclude other | otherCode item =>
    cases hstep
    rfl

/-- The check for second implementations looks at the implementations only. -/
theorem duplicateImpl_erase (seen : List (Ident × Ident)) :
    Core.App.duplicateImpl seen (items.filterMap Sorted.erase) =
      Core.App.duplicateImpl seen (items.filterMap Sorted.implName?) := by
  induction items generalizing seen with
  | nil => rfl
  | cons item items ih =>
    cases item with
    | taskImpl implementor implItem =>
      show (Core.App.duplicateImpl _ (items.filterMap Sorted.erase)).or _ =
        (Core.App.duplicateImpl _ (items.filterMap Sorted.implName?)).or _
      rw [ih]
    | shared strct attr | init function attr | postInit function attr | task strct attr
    | idle strct attr | userInclude other | otherCode item => exact ih seen

end

/-- **The two models of the parser agree.** -/
theorem parse_erase {args : AppArgs} {items : List ModuleItem} {app : App}
    (h : App.parse args items = .ok app) :
    Core.App.parse args ((items.map ModuleItem.sort).filterMap Sorted.erase) = .ok app.erase := by
  obtain ⟨_, himpls, h⟩ := bind_eq_ok.mp h
  obtain ⟨shared, hshared, h⟩ := bind_eq_ok.mp h
  obtain ⟨inits, hinits, h⟩ := bind_eq_ok.mp h
  obtain ⟨postInits, hpostInits, h⟩ := bind_eq_ok.mp h
  obtain ⟨idles, hidles, h⟩ := bind_eq_ok.mp h
  obtain ⟨tasks, htasks, h⟩ := bind_eq_ok.mp h
  obtain ⟨subApps, hsubs, h⟩ := bind_eq_ok.mp h
  cases h
  refine bind_eq_ok.mpr ⟨(), ?_, ?_⟩
  · unfold Core.App.checkImpls
    rw [duplicateImpl_erase]
    exact himpls
  refine bind_eq_ok.mpr ⟨_, constructSharedResources_erase hshared, ?_⟩
  refine bind_eq_ok.mpr ⟨_, constructInits_erase hinits, ?_⟩
  refine bind_eq_ok.mpr ⟨_, constructPostInits_erase hpostInits, ?_⟩
  refine bind_eq_ok.mpr ⟨_, constructIdleTasks_erase hidles, ?_⟩
  refine bind_eq_ok.mpr ⟨_, constructRticTasks_erase htasks, ?_⟩
  refine bind_eq_ok.mpr ⟨subApps.map SubApp.erase, ?_, rfl⟩
  refine mapM_simulates ?_ hsubs
  intro core sub hsub
  split at hsub
  · rename_i init hinit
    cases hsub
    rw [lookup_keyed, hinit]
    simp only [lookup_keyed, Option.map_some]
    show Except.ok _ = Except.ok _
    refine congrArg Except.ok ?_
    simp only [SubApp.erase, List.filter_map]
    rfl
  · cases hsub

end Rticx.Core.Source
