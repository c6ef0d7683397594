import Mathlib.Data.List.Perm.Basic
import Rticx.AutoAssign.App
import Rticx.Lib.UniqueMap

/-!
# The cores that are assigned

`auto_assign::run` takes the first resource of a task for its core and compares the others with it.
What comes out does not depend on which one is the first: a task gets the core that owns all its
resources, when there is one.
-/

namespace Rticx.AutoAssign

open Rticx.Core Rticx.Core.Source Rticx.Lib Rticx.Lib.Except

/-! ## What should be assigned -/

/-- The names of the resources of all shared structs. -/
def App.resources (app : App) : List Ident := app.sharedResources.flatMap (·.sharedItems)

/-- All listed resources belong to shared structs of this core. -/
def Owns (sharedResources : List SharedResources) (core : Nat) (items : List Ident) : Prop :=
  ∀ r ∈ items, ∃ shared ∈ sharedResources, shared.core = core ∧ r ∈ shared.sharedItems

/-- When a core can be assigned to every task. -/
structure Assignable (cores : Nat) (app : App) : Prop where
  /-- no name of a resource occurs twice -/
  unique : app.resources.Nodup
  /-- with several cores the resources of a task without a core decide it -/
  owned : cores ≠ 1 → ∀ task ∈ app.tasks, task.core = none →
    task.sharedItems ≠ [] ∧ ∃ core, Owns app.sharedResources core task.sharedItems

/-- What the pass makes of a task. -/
structure Assigned (cores : Nat) (sharedResources : List SharedResources) (task task' : RticTask) :
    Prop where
  isSome : task'.core.isSome
  kept : task.core.isSome → task' = task
  single : task.core = none → cores = 1 → task'.core = some 0
  owner : task.core = none → cores ≠ 1 →
    ∃ core, task'.core = some core ∧ Owns sharedResources core task.sharedItems
  /-- the core is written to the attribute as well -/
  written : task.core = none → task'.params.getExpr "core" = task'.core.map .int
  /-- everything else stays as it is -/
  others : ∀ key, key ≠ "core" → task'.params.getExpr key = task.params.getExpr key
  name : task'.params.name = task.params.name
  attrIdx : task'.attrIdx = task.attrIdx
  sharedItems : task'.sharedItems = task.sharedItems
  taskStruct : task'.taskStruct = task.taskStruct

/-- What the pass makes of an app. -/
structure App.Assigned (cores : Nat) (app app' : App) : Prop where
  tasks : List.Forall₂ (AutoAssign.Assigned cores app.sharedResources) app.tasks app'.tasks
  sharedResources : app'.sharedResources = app.sharedResources
  restOfCode : app'.restOfCode = app.restOfCode

/-- The resources of the task in another order. -/
structure SameTask (task task' : RticTask) : Prop where
  items : task'.sharedItems.Perm task.sharedItems
  others : task' = { task with sharedItems := task'.sharedItems }

/-- The tasks, the shared structs and the resources of the tasks in another order. -/
structure Reordered (app app' : App) : Prop where
  sharedResources : app'.sharedResources.Perm app.sharedResources
  tasks : ∃ tasks, tasks.Perm app.tasks ∧ List.Forall₂ SameTask tasks app'.tasks
  restOfCode : app'.restOfCode = app.restOfCode

/-! ## The map of the resources -/

variable {cores : Nat} {app app' : App} {task task' : RticTask}
  {sharedResources : List SharedResources} {map : ResourceCoreMap}

/-- The resources with their cores. -/
def resourceCores (sharedResources : List SharedResources) : List (Ident × Nat) :=
  sharedResources.flatMap fun shared => shared.sharedItems.map (·, shared.core)

/-- `DuplicatResourceName` -/
def duplicateName (element : Ident) : String :=
  s!"The resource name `{element}` was found on multiple structs with #[shared] " ++
    "attribute, but resource names must be unique."

theorem resourceCoreMap_eq (sharedResources : List SharedResources) :
    resourceCoreMap sharedResources =
      UniqueMap.build duplicateName (resourceCores sharedResources) := by
  have hloop : ∀ map : ResourceCoreMap, sharedResources.foldlM insertResources map =
      (resourceCores sharedResources).foldlM (UniqueMap.insertNew duplicateName) map := by
    induction sharedResources with
    | nil => exact fun _ => rfl
    | cons shared sharedResources ih =>
      intro map
      rw [List.foldlM_cons, resourceCores, List.flatMap_cons, List.foldlM_append, List.foldlM_map]
      exact congrArg (insertResources map shared >>= ·) (funext ih)
  exact hloop ∅

theorem mem_resourceCores {r : Ident} {core : Nat} :
    (r, core) ∈ resourceCores sharedResources ↔
      ∃ shared ∈ sharedResources, shared.core = core ∧ r ∈ shared.sharedItems := by
  unfold resourceCores
  rw [List.mem_flatMap]
  refine exists_congr fun shared => and_congr_right fun _ => ?_
  rw [List.mem_map]
  constructor
  · rintro ⟨r', hr, heq⟩
    cases heq
    exact ⟨rfl, hr⟩
  · rintro ⟨rfl, hr⟩
    exact ⟨r, hr, rfl⟩

theorem resourceCores_names (app : App) :
    (resourceCores app.sharedResources).map Prod.fst = app.resources := by
  unfold resourceCores App.resources
  rw [List.map_flatMap]
  refine congrArg (List.flatMap · app.sharedResources) (funext fun shared => ?_)
  rw [List.map_map]
  exact List.map_id _

/-- The map is there exactly when the names are unique. -/
theorem resourceCoreMap_ok_iff :
    (∃ map, resourceCoreMap app.sharedResources = .ok map) ↔ app.resources.Nodup := by
  rw [resourceCoreMap_eq, UniqueMap.build_ok_iff, resourceCores_names]

/-- All resources of a list have this core in the map. -/
theorem owns_iff (hmap : resourceCoreMap sharedResources = .ok map) {core : Nat}
    {items : List Ident} :
    Owns sharedResources core items ↔ ∀ r ∈ items, map.lookup r = some core := by
  rw [resourceCoreMap_eq] at hmap
  refine forall₂_congr fun r _ => ?_
  rw [UniqueMap.lookup_build hmap, mem_resourceCores]

/-! ## One task -/

/-- The three ways in which a task comes out. -/
inductive Inferred (cores : Nat) (sharedResources : List SharedResources) (task : RticTask) :
    RticTask → Prop where
  | given : task.core.isSome → Inferred cores sharedResources task task
  | single : task.core = none → cores = 1 → Inferred cores sharedResources task (task.assignCore 0)
  | owner (core : Nat) : task.core = none → cores ≠ 1 → task.sharedItems ≠ [] →
    Owns sharedResources core task.sharedItems →
    Inferred cores sharedResources task (task.assignCore core)

/-- **The first element and the check of the others say that one core owns them all.** -/
theorem infer_ok_iff (hmap : resourceCoreMap sharedResources = .ok map) :
    task.infer cores map = .ok task' ↔ Inferred cores sharedResources task task' := by
  unfold RticTask.infer
  constructor
  · intro h
    split at h
    · rename_i hsome
      cases h
      exact .given hsome
    · rename_i hnone
      have hnone : task.core = none := by simpa using hnone
      split at h
      · rename_i hcores
        cases h
        exact .single hnone hcores
      · rename_i hcores
        split at h
        · cases h
        · rename_i first rest hitems
          split at h
          · cases h
          · rename_i core hfirst
            split at h
            · cases h
            · rename_i hrest
              cases h
              refine .owner core hnone hcores (by rw [hitems]; exact List.cons_ne_nil _ _) ?_
              rw [owns_iff hmap, hitems, List.forall_mem_cons]
              refine ⟨hfirst, fun r hr => ?_⟩
              by_contra hne
              exact hrest (List.any_eq_true.mpr ⟨r, hr, by simpa using hne⟩)
  · intro h
    cases h with
    | given hsome => rw [if_pos hsome]
    | single hnone hcores => rw [if_neg (by simp [hnone]), if_pos hcores]
    | owner core hnone hcores hne howns =>
      rw [if_neg (by simp [hnone]), if_neg hcores]
      obtain ⟨first, rest, hitems⟩ := List.exists_cons_of_ne_nil hne
      rw [owns_iff hmap, hitems, List.forall_mem_cons] at howns
      rw [hitems]
      simp only [howns.1]
      rw [if_neg]
      intro hany
      obtain ⟨r, hr, hne⟩ := List.any_eq_true.mp hany
      simp [howns.2 r hr] at hne

theorem isSome_none_elim {α : Type} {x : Option α} (hsome : x.isSome) (hnone : x = none) : False := by
  rw [hnone] at hsome
  cases hsome

theorem Inferred.assigned (h : Inferred cores sharedResources task task') :
    Assigned cores sharedResources task task' := by
  cases h with
  | given hsome =>
    exact {
      isSome := hsome
      kept := fun _ => rfl
      single := fun hnone => (isSome_none_elim hsome hnone).elim
      owner := fun hnone => (isSome_none_elim hsome hnone).elim
      written := fun hnone => (isSome_none_elim hsome hnone).elim
      others := fun _ _ => rfl
      name := rfl
      attrIdx := rfl
      sharedItems := rfl
      taskStruct := rfl }
  | single hnone hcores =>
    exact {
      isSome := rfl
      kept := fun hsome => (isSome_none_elim hsome hnone).elim
      single := fun _ _ => rfl
      owner := fun _ hne => absurd hcores hne
      written := fun _ => AList.lookup_insert _
      others := fun _ hkey => AList.lookup_insert_ne hkey
      name := rfl
      attrIdx := rfl
      sharedItems := rfl
      taskStruct := rfl }
  | owner core hnone hcores hne howns =>
    exact {
      isSome := rfl
      kept := fun hsome => (isSome_none_elim hsome hnone).elim
      single := fun _ hone => absurd hone hcores
      owner := fun _ _ => ⟨core, rfl, howns⟩
      written := fun _ => AList.lookup_insert _
      others := fun _ hkey => AList.lookup_insert_ne hkey
      name := rfl
      attrIdx := rfl
      sharedItems := rfl
      taskStruct := rfl }

/-- Something is inferred exactly when the task has a core or its resources decide it. -/
theorem exists_inferred_iff :
    (∃ task', Inferred cores sharedResources task task') ↔
      (cores ≠ 1 → task.core = none →
        task.sharedItems ≠ [] ∧ ∃ core, Owns sharedResources core task.sharedItems) := by
  constructor
  · rintro ⟨task', h⟩ hcores hnone
    cases h with
    | given hsome => exact (isSome_none_elim hsome hnone).elim
    | single _ hone => exact absurd hone hcores
    | owner core _ _ hne howns => exact ⟨hne, core, howns⟩
  · intro h
    cases hcore : task.core with
    | some core => exact ⟨task, .given (by rw [hcore]; rfl)⟩
    | none =>
      by_cases hcores : cores = 1
      · exact ⟨_, .single hcore hcores⟩
      · obtain ⟨hne, core, howns⟩ := h hcores hcore
        exact ⟨_, .owner core hcore hcores hne howns⟩

/-! ## All tasks -/

/-- **A run infers the core of each task by itself.** -/
theorem run_ok_iff : run cores app = .ok app' ↔
    app.resources.Nodup ∧
      List.Forall₂ (Inferred cores app.sharedResources) app.tasks app'.tasks ∧
      app'.sharedResources = app.sharedResources ∧ app'.restOfCode = app.restOfCode := by
  unfold run
  constructor
  · intro h
    obtain ⟨map, hmap, h⟩ := bind_eq_ok.mp h
    obtain ⟨tasks, htasks, h⟩ := bind_eq_ok.mp h
    cases h
    refine ⟨resourceCoreMap_ok_iff.mp ⟨map, hmap⟩, ?_, rfl, rfl⟩
    exact (mapM_ok_iff_forall₂.mp htasks).imp fun _ _ => (infer_ok_iff hmap).mp
  · rintro ⟨hnodup, htasks, hshared, hrest⟩
    obtain ⟨map, hmap⟩ := resourceCoreMap_ok_iff.mpr hnodup
    refine bind_eq_ok.mpr ⟨map, hmap, bind_eq_ok.mpr ⟨app'.tasks, ?_, ?_⟩⟩
    · exact mapM_ok_iff_forall₂.mpr (htasks.imp fun _ _ => (infer_ok_iff hmap).mpr)
    · obtain ⟨shared', tasks', rest'⟩ := app'
      cases hshared
      cases hrest
      rfl

theorem exists_forall₂_iff {α β : Type} {R : α → β → Prop} {xs : List α} :
    (∃ ys, List.Forall₂ R xs ys) ↔ ∀ x ∈ xs, ∃ y, R x y := by
  induction xs with
  | nil => exact iff_of_true ⟨[], .nil⟩ (by simp)
  | cons x xs ih =>
    rw [List.forall_mem_cons, ← ih]
    constructor
    · rintro ⟨ys, h⟩
      cases h with
      | cons hxy hrest => exact ⟨⟨_, hxy⟩, _, hrest⟩
    · rintro ⟨⟨y, hxy⟩, ys, hrest⟩
      exact ⟨y :: ys, .cons hxy hrest⟩

theorem run_ok_iff_assignable : (∃ app', run cores app = .ok app') ↔ Assignable cores app := by
  simp only [run_ok_iff]
  constructor
  · rintro ⟨app', hnodup, htasks, -, -⟩
    refine ⟨hnodup, fun hcores task htask hnone => ?_⟩
    exact exists_inferred_iff.mp (exists_forall₂_iff.mp ⟨_, htasks⟩ task htask) hcores hnone
  · rintro ⟨hnodup, howned⟩
    obtain ⟨tasks, htasks⟩ := exists_forall₂_iff.mpr fun task htask =>
      exists_inferred_iff.mpr fun hcores => howned hcores task htask
    exact ⟨{ app with tasks := tasks }, hnodup, htasks, rfl, rfl⟩

/-! ## The order of things -/

theorem Owns.perm {sharedResources' : List SharedResources} {core : Nat} {items items' : List Ident}
    (h : Owns sharedResources core items) (hshared : sharedResources'.Perm sharedResources)
    (hitems : items'.Perm items) : Owns sharedResources' core items' := by
  intro r hr
  obtain ⟨shared, hmem, hcore⟩ := h r (hitems.mem_iff.mp hr)
  exact ⟨shared, hshared.mem_iff.mpr hmem, hcore⟩

/-- The same core is inferred for the task with its resources in another order. -/
theorem Inferred.reorder {sharedResources' : List SharedResources} {task₂ : RticTask}
    (h : Inferred cores sharedResources task task')
    (hshared : sharedResources'.Perm sharedResources) (hsame : SameTask task task₂) :
    ∃ task₂', Inferred cores sharedResources' task₂ task₂' ∧ SameTask task' task₂' := by
  obtain ⟨hitems, hothers⟩ := hsame
  generalize task₂.sharedItems = items at hitems hothers
  subst hothers
  cases h with
  | given hsome => exact ⟨_, .given hsome, hitems, rfl⟩
  | single hnone hcores => exact ⟨_, .single hnone hcores, hitems, rfl⟩
  | owner core hnone hcores hne howns =>
    refine ⟨_, .owner core hnone hcores ?_ (howns.perm hshared hitems), hitems, rfl⟩
    exact fun hnil => hne (List.Perm.eq_nil (hnil ▸ hitems.symm))

/-- What each pair of a list leads to, the lists lead to. -/
theorem forall₂_diamond {α : Type} {R S R' S' : α → α → Prop}
    (h : ∀ x y z, R x y → S x z → ∃ w, R' z w ∧ S' y w) {xs ys zs : List α}
    (hR : List.Forall₂ R xs ys) (hS : List.Forall₂ S xs zs) :
    ∃ ws, List.Forall₂ R' zs ws ∧ List.Forall₂ S' ys ws := by
  induction hR generalizing zs with
  | nil =>
    cases hS
    exact ⟨[], .nil, .nil⟩
  | cons hxy _ ih =>
    cases hS with
    | cons hxz hS =>
      obtain ⟨w, hR', hS'⟩ := h _ _ _ hxy hxz
      obtain ⟨ws, hRs, hSs⟩ := ih hS
      exact ⟨w :: ws, .cons hR' hRs, .cons hS' hSs⟩

/-- **The order of tasks, of shared structs and of the resources of a task does not matter.** -/
theorem run_reorder {app₂ : App} (hsame : Reordered app app₂) (h : run cores app = .ok app') :
    ∃ app₂', run cores app₂ = .ok app₂' ∧ Reordered app' app₂' := by
  obtain ⟨hnodup, htasks, hshared, hrest⟩ := run_ok_iff.mp h
  obtain ⟨ts, hperm, hts⟩ := hsame.tasks
  obtain ⟨ts', hts', hperm'⟩ := List.perm_comp_forall₂ hperm htasks
  obtain ⟨tasks₂, htasks₂, hsame₂⟩ := forall₂_diamond (S := SameTask)
    (fun _ _ _ hR hS => Inferred.reorder hR hsame.sharedResources hS) hts' hts
  refine ⟨{ app₂ with tasks := tasks₂ }, run_ok_iff.mpr ⟨?_, htasks₂, rfl, rfl⟩, ?_⟩
  · exact ((hsame.sharedResources.flatMap_right _).nodup_iff).mpr hnodup
  · exact {
      sharedResources := hshared ▸ hsame.sharedResources
      tasks := ⟨ts', hperm', hsame₂⟩
      restOfCode := hsame.restOfCode.trans hrest.symm }

/-! ## The pass -/

/--
**Cores are assigned exactly**: when they can be, to every task, and in whatever order things are
written.
-/
theorem run_exact (cores : Nat) (app : App) :
    ((∃ app', run cores app = .ok app') ↔ Assignable cores app) ∧
    (∀ app', run cores app = .ok app' → app.Assigned cores app') ∧
    ∀ app₂, Reordered app app₂ → ∀ app', run cores app = .ok app' →
      ∃ app₂', run cores app₂ = .ok app₂' ∧ Reordered app' app₂' := by
  refine ⟨run_ok_iff_assignable, fun app' h => ?_, fun app₂ hsame app' h => run_reorder hsame h⟩
  obtain ⟨-, htasks, hshared, hrest⟩ := run_ok_iff.mp h
  exact ⟨htasks.imp fun _ _ => Inferred.assigned, hshared, hrest⟩

end Rticx.AutoAssign
