import Mathlib.Data.List.Perm.Basic
import Rticx.Core.Boot
import Rticx.Lib.Affix

/-!
# The names of the generated items

`CodeGen::run` of `rticx-core/src/codegen`: what it adds to the module of the app besides functions.
Each sub-app has statics for its shared struct, its tasks and idle, a proxy for each shared field, a
struct of proxies for each task that lists some, and `TaskInits`; all of them stand in one module.
-/

namespace Rticx.Core

open Lib Lib.Except

/-! ## The items -/

/-- A module-level item. -/
inductive GeneratedItem where
  /-- `static mut #ident: MaybeUninit<#ty>` -/
  | static (ident ty : Ident)
  /-- `pub struct #ident<const TASK_PRIORITY: u16>;` -/
  | proxy (ident : Ident)
  /-- a struct with the names and types of its fields -/
  | strct (ident : Ident) (fields : List (Ident × String))
  deriving DecidableEq

namespace GeneratedItem

/-- What the item defines in the type namespace. -/
def typeName : GeneratedItem → Option Ident
  | .static _ _ => none
  | .proxy ident | .strct ident _ => some ident

/-- What the item defines in the value namespace: a struct without braces is also a constructor. -/
def valueName : GeneratedItem → Option Ident
  | .static ident _ | .proxy ident => some ident
  | .strct _ _ => none

end GeneratedItem

/-- No name is defined twice in its namespace. -/
def Distinct (items : List GeneratedItem) : Prop :=
  (items.filterMap GeneratedItem.typeName).Nodup ∧ (items.filterMap GeneratedItem.valueName).Nodup

instance (items : List GeneratedItem) : Decidable (Distinct items) :=
  inferInstanceAs (Decidable (_ ∧ _))

/-- What `format_ident!` writes for an identifier. -/
def unraw (ident : Ident) : Ident :=
  match ident.toList with
  | 'r' :: '#' :: rest => String.ofList rest
  | _ => ident

/-- `get_proxy_name` -/
def getProxyName (ident : Ident) : Ident := affix "__" "_mutex" (unraw ident)

/-- `task_shared_resources_struct`, of the name in snake case. -/
def sharedResourcesIdent (snakecase : Ident) : Ident :=
  affix "__" "_shared_resources" (unraw snakecase)

section Codegen

variable (cases : Cases)

/-- The static of `generate_shared_resources_def`. -/
def SharedResources.resourcesDef (shared : SharedResources) : GeneratedItem :=
  .static (shared.nameUppercase cases) shared.strct

/-- `generate_resource_proxies` -/
def SharedResources.resourceProxies (shared : SharedResources) : List GeneratedItem :=
  shared.resources.map fun element => .proxy (getProxyName element.ident)

/-- The struct of `generate_shared_for_task`. -/
def SharedResources.sharedForTask (shared : SharedResources) (task : RticTask) :
    List GeneratedItem :=
  if task.args.shared.isEmpty then [] else
    [.strct (sharedResourcesIdent (cases.snakecaseIdent task.name))
      ((generateSharedForTask shared task).map fun field =>
        (field.1, s!"{getProxyName field.1}<{field.2}>"))]

/-- `generate_task_def` -/
def RticTask.taskDef (shared : Option SharedResources) (task : RticTask) : List GeneratedItem :=
  .static (task.nameUppercase cases) task.name ::
    (shared.map (·.sharedForTask cases task)).getD []

/-- `TaskInits` as an item. -/
def TaskInitsStruct.item (taskInits : TaskInitsStruct) : GeneratedItem :=
  .strct taskInits.ident taskInits.fields

/-- `generate_sub_app` -/
def SubApp.items (numSubApps : Nat) (sub : SubApp) (analysis : SubAnalysis) :
    List GeneratedItem :=
  let taskInits := generateTaskInitsStruct cases (taskInitsIdent numSubApps sub.core)
    analysis.lateResourceTasks
  sub.shared.toList.map (·.resourcesDef cases) ++
    sub.idle.toList.flatMap (·.taskDef cases sub.shared) ++
    sub.tasks.flatMap (·.taskDef cases sub.shared) ++
    sub.shared.toList.flatMap (·.resourceProxies) ++ [taskInits.item]

/-- `generate_sub_apps` -/
def App.items (app : App) (analysis : Analysis) : List GeneratedItem :=
  (app.subApps.zip analysis.subAnalysis).flatMap fun sub =>
    sub.1.items cases app.subApps.length sub.2

end Codegen

/-! ## What the names are made of -/

/-- The structs that get a static. -/
def SubApp.structs (sub : SubApp) : List Ident :=
  sub.shared.toList.map (·.strct) ++ (sub.idle.toList ++ sub.tasks).map (·.name)

/-- The fields of the shared struct. -/
def SubApp.fields (sub : SubApp) : List Ident :=
  sub.shared.toList.flatMap fun shared => shared.resources.map (·.ident)

/-- The tasks that get a struct of proxies. -/
def SubApp.sharerNames (sub : SubApp) : List Ident :=
  sub.shared.toList.flatMap fun _ =>
    ((sub.idle.toList ++ sub.tasks).filter fun t => !t.args.shared.isEmpty).map (·.name)

variable {cases : Cases} {sub : SubApp}

theorem taskDef_typeNames (shared : Option SharedResources) (tasks : List RticTask) :
    (tasks.flatMap (·.taskDef cases shared)).filterMap GeneratedItem.typeName =
      (shared.toList.flatMap fun _ =>
        (tasks.filter fun t => !t.args.shared.isEmpty).map (·.name)).map
        fun name => sharedResourcesIdent (cases.snakecaseIdent name) := by
  induction tasks with
  | nil => cases shared <;> rfl
  | cons t ts ih =>
    rw [List.flatMap_cons, List.filterMap_append, ih]
    cases shared with
    | none => rfl
    | some shared =>
      cases hs : t.args.shared.isEmpty
      · simp [RticTask.taskDef, SharedResources.sharedForTask, GeneratedItem.typeName, hs,
          List.filterMap_cons]
      · simp [RticTask.taskDef, SharedResources.sharedForTask, GeneratedItem.typeName, hs]

theorem taskDef_valueNames (shared : Option SharedResources) (tasks : List RticTask) :
    (tasks.flatMap (·.taskDef cases shared)).filterMap GeneratedItem.valueName =
      tasks.map (·.nameUppercase cases) := by
  induction tasks with
  | nil => rfl
  | cons t ts ih =>
    rw [List.flatMap_cons, List.filterMap_append, ih]
    cases shared with
    | none => rfl
    | some shared =>
      cases hs : t.args.shared.isEmpty
      · simp [RticTask.taskDef, SharedResources.sharedForTask, GeneratedItem.valueName, hs]
      · simp [RticTask.taskDef, SharedResources.sharedForTask, GeneratedItem.valueName, hs]

theorem SubApp.typeNames_eq (numSubApps : Nat) (analysis : SubAnalysis) :
    (sub.items cases numSubApps analysis).filterMap GeneratedItem.typeName =
      sub.sharerNames.map (fun name => sharedResourcesIdent (cases.snakecaseIdent name)) ++
        sub.fields.map getProxyName ++ [taskInitsIdent numSubApps sub.core] := by
  unfold SubApp.items SubApp.sharerNames SubApp.fields
  rw [List.append_assoc (sub.shared.toList.map _), ← List.flatMap_append]
  simp only [List.filterMap_append, taskDef_typeNames]
  cases hs : sub.shared with
  | none => rfl
  | some shared =>
    simp [SharedResources.resourcesDef, SharedResources.resourceProxies, GeneratedItem.typeName,
      TaskInitsStruct.item, generateTaskInitsStruct, List.filterMap_map, Function.comp_def]

theorem SubApp.valueNames_eq (numSubApps : Nat) (analysis : SubAnalysis) :
    (sub.items cases numSubApps analysis).filterMap GeneratedItem.valueName =
      sub.structs.map cases.uppercaseIdent ++ sub.fields.map getProxyName := by
  unfold SubApp.items SubApp.structs SubApp.fields
  rw [List.append_assoc (sub.shared.toList.map _), ← List.flatMap_append]
  simp only [List.filterMap_append, taskDef_valueNames]
  cases hs : sub.shared with
  | none =>
    simp [GeneratedItem.valueName, TaskInitsStruct.item, RticTask.nameUppercase,
      List.filterMap_cons, Function.comp_def]
  | some shared =>
    simp [SharedResources.resourcesDef, SharedResources.resourceProxies, GeneratedItem.valueName,
      TaskInitsStruct.item, SharedResources.nameUppercase, RticTask.nameUppercase,
      List.filterMap_map, Function.comp_def]

/-! ## The whole module -/

def App.structs (app : App) : List Ident := app.subApps.flatMap SubApp.structs

def App.fields (app : App) : List Ident := app.subApps.flatMap SubApp.fields

def App.sharerNames (app : App) : List Ident := app.subApps.flatMap SubApp.sharerNames

variable {app app' : App} {analysis : Analysis}

/-- The names of the items of all sub-apps, where they do not depend on the analysis. -/
theorem App.filterMap_items {f : GeneratedItem → Option Ident} {g : SubApp → List Ident}
    (hlen : app.subApps.length ≤ analysis.subAnalysis.length)
    (h : ∀ sub a, (SubApp.items cases app.subApps.length sub a).filterMap f = g sub) :
    (app.items cases analysis).filterMap f = app.subApps.flatMap g := by
  unfold App.items
  rw [List.filterMap_flatMap]
  simp only [h]
  rw [← List.flatMap_map Prod.fst g, List.map_fst_zip hlen]

theorem App.typeNames_perm (hlen : app.subApps.length ≤ analysis.subAnalysis.length) :
    ((app.items cases analysis).filterMap GeneratedItem.typeName).Perm
      (app.sharerNames.map (fun name => sharedResourcesIdent (cases.snakecaseIdent name)) ++
        app.fields.map getProxyName ++
        (app.subApps.map (·.core)).map (taskInitsIdent app.subApps.length)) := by
  rw [App.filterMap_items hlen fun sub a => sub.typeNames_eq _ a]
  refine (List.flatMap_append_perm _ _ _).symm.trans (List.Perm.append ?_ (by
    rw [List.map_map, List.map_eq_flatMap]
    rfl))
  refine (List.flatMap_append_perm _ _ _).symm.trans ?_
  unfold App.sharerNames App.fields
  rw [List.map_flatMap, List.map_flatMap]

theorem App.valueNames_perm (hlen : app.subApps.length ≤ analysis.subAnalysis.length) :
    ((app.items cases analysis).filterMap GeneratedItem.valueName).Perm
      (app.structs.map cases.uppercaseIdent ++ app.fields.map getProxyName) := by
  rw [App.filterMap_items hlen fun sub a => sub.valueNames_eq _ a]
  refine (List.flatMap_append_perm _ _ _).symm.trans ?_
  unfold App.structs App.fields
  rw [List.map_flatMap, List.map_flatMap]

/-! ## What the analysis keeps -/

theorem raiseField_idents {r : Ident} {p : Nat} {es es' : List SharedElement}
    (h : raiseField r p es = some es') : es'.map (·.ident) = es.map (·.ident) := by
  induction es generalizing es' with
  | nil => cases h
  | cons e es ih =>
    unfold raiseField at h
    split at h
    · cases h
      rw [List.map_cons, List.map_cons, SharedElement.raise_eq]
    · obtain ⟨es'', hes, rfl⟩ := Option.map_eq_some_iff.mp h
      rw [List.map_cons, List.map_cons, ih hes]

/-- The two structs are the same but for their ceilings. -/
def SharedResources.SameNames (shared shared' : SharedResources) : Prop :=
  shared'.strct = shared.strct ∧
    shared'.resources.map (·.ident) = shared.resources.map (·.ident)

theorem raiseFields_sameNames {shared shared' : SharedResources} {t : RticTask}
    (h : raiseFields shared t = .ok shared') : shared.SameNames shared' := by
  refine foldlM_ok (P := shared.SameNames) ?_ ⟨rfl, rfl⟩ h
  intro s r s' _ hs hstep
  split at hstep
  · rename_i es hes
    cases hstep
    exact ⟨hs.1, (raiseField_idents hes).trans hs.2⟩
  · cases hstep

theorem SubApp.Analyzed.sameNames {sub sub' : SubApp} (h : sub.Analyzed sub') :
    sub'.structs = sub.structs ∧ sub'.fields = sub.fields := by
  obtain ⟨shared', hupdate, rfl⟩ := h
  unfold SubApp.structs SubApp.fields
  cases hshared : sub.shared with
  | none =>
    rw [hshared] at hupdate
    cases hupdate
    exact ⟨rfl, rfl⟩
  | some shared =>
    rw [hshared] at hupdate
    obtain ⟨s, hs, rfl⟩ := map_eq_ok.mp hupdate
    have hsame : shared.SameNames s := by
      refine foldlM_ok (P := shared.SameNames) ?_ ⟨rfl, rfl⟩ hs
      intro s t s' _ hs hstep
      have hnext := raiseFields_sameNames hstep
      exact ⟨hnext.1.trans hs.1, hnext.2.trans hs.2⟩
    constructor
    · simp [hsame.1]
    · simp [hsame.2]

theorem flatMap_of_forall₂ {α β γ : Type*} {R : α → β → Prop} {f : α → List γ} {g : β → List γ}
    {xs : List α} {ys : List β} (h : List.Forall₂ R xs ys) (hg : ∀ x y, R x y → g y = f x) :
    ys.flatMap g = xs.flatMap f := by
  induction h with
  | nil => rfl
  | cons hxy _ ih => rw [List.flatMap_cons, List.flatMap_cons, hg _ _ hxy, ih]

theorem Analysis.run_sameNames (h : Analysis.run app = .ok (app', analysis)) :
    app'.structs = app.structs ∧ app'.fields = app.fields := by
  have hsubs := Analysis.run_subApps h
  exact ⟨flatMap_of_forall₂ hsubs fun _ _ hsub => hsub.sameNames.1,
    flatMap_of_forall₂ hsubs fun _ _ hsub => hsub.sameNames.2⟩

/-- The sub-apps are those of the cores of the arguments. -/
theorem App.parse_cores {args : AppArgs} {items : List Item} (h : App.parse args items = .ok app) :
    app.subApps.map (·.core) = List.range args.cores := by
  unfold App.parse at h
  obtain ⟨-, -, h⟩ := bind_eq_ok.mp h
  obtain ⟨shared, -, h⟩ := bind_eq_ok.mp h
  obtain ⟨inits, -, h⟩ := bind_eq_ok.mp h
  obtain ⟨postInits, -, h⟩ := bind_eq_ok.mp h
  obtain ⟨idles, -, h⟩ := bind_eq_ok.mp h
  obtain ⟨tasks, -, h⟩ := bind_eq_ok.mp h
  obtain ⟨subApps, hsubs, h⟩ := bind_eq_ok.mp h
  cases h
  show subApps.map (·.core) = _
  rw [List.map_eq_flatMap, ← List.flatMap_singleton' (List.range args.cores)]
  refine flatMap_of_forall₂ (mapM_forall₂ hsubs) fun core sub hsub => ?_
  split at hsub <;> cases hsub
  rfl

theorem Analysis.run_cores (h : Analysis.run app = .ok (app', analysis)) :
    app'.subApps.map (·.core) = app.subApps.map (·.core) := by
  rw [List.map_eq_flatMap, List.map_eq_flatMap]
  refine flatMap_of_forall₂ (Analysis.run_subApps h) fun sub sub' hsub => ?_
  obtain ⟨shared', -, rfl⟩ := hsub
  rfl

theorem Analysis.run_length (h : Analysis.run app = .ok (app', analysis)) :
    analysis.subAnalysis.length = app'.subApps.length := by
  unfold Analysis.run at h
  obtain ⟨subApps, -, h⟩ := bind_eq_ok.mp h
  cases h
  exact List.length_map _

/-! ## Schemes that do not meet -/

/-- What is documented of the functions that change the case. -/
structure Cases.Lawful (cases : Cases) : Prop where
  /-- no letter stays in lower case -/
  upper : ∀ ident, ∀ c ∈ (cases.toUppercase ident).toList, c.isLower = false
  /-- words are split where another character than a letter or a digit stands -/
  snake : ∀ ident, '#' ∉ (cases.toSnakeCase ident).toList

theorem unraw_of_not_mem {ident : Ident} (h : '#' ∉ ident.toList) : unraw ident = ident := by
  unfold unraw
  split
  · rename_i rest heq
    rw [heq] at h
    exact absurd (List.mem_cons_of_mem _ List.mem_cons_self) h
  · rfl

theorem proxyNames_nodup_iff (fields : List Ident) :
    (fields.map getProxyName).Nodup ↔ (fields.map unraw).Nodup := by
  have heq : fields.map getProxyName = (fields.map unraw).map (affix "__" "_mutex") := by
    rw [List.map_map]
    rfl
  rw [heq, List.nodup_map_iff (affix_injective _ _)]

theorem taskInitsIdent_eq {n : Nat} (hn : n ≠ 1) (core : Nat) :
    taskInitsIdent n core = affix "TaskInitsCore" "" (toString core) := by
  unfold taskInitsIdent affix
  rw [if_neg hn]
  exact String.append_empty.symm

theorem taskInitsIdent_nodup (n : Nat) : ((List.range n).map (taskInitsIdent n)).Nodup := by
  by_cases hn : n = 1
  · subst hn
    decide
  · rw [funext (taskInitsIdent_eq hn), List.nodup_map_iff (affix_toString_injective _ _)]
    exact List.nodup_range

theorem taskInitsIdent_head (n core : Nat) : (taskInitsIdent n core).toList.head? = some 'T' := by
  by_cases hn : n = 1
  · rw [show taskInitsIdent n core = "TaskInits" from if_pos hn]
    decide
  · rw [taskInitsIdent_eq hn]
    exact head_affix (by decide)

theorem SubApp.sharerNames_sublist (sub : SubApp) : sub.sharerNames.Sublist sub.structs := by
  unfold SubApp.sharerNames SubApp.structs
  refine List.Sublist.trans ?_ (List.sublist_append_right _ _)
  cases sub.shared with
  | none => exact List.nil_sublist _
  | some shared =>
    rw [Option.toList_some, List.flatMap_singleton]
    exact List.Sublist.map _ List.filter_sublist

/-- Structs that keep their names apart in upper case do so in snake case. -/
theorem sharerNames_nodup (hcases : cases.Lawful)
    (h : (app.structs.map cases.uppercaseIdent).Nodup) :
    (app.sharerNames.map fun name => sharedResourcesIdent (cases.snakecaseIdent name)).Nodup := by
  have hsublist : app.sharerNames.Sublist app.structs :=
    List.Sublist.flatMap_right _ fun sub _ => sub.sharerNames_sublist
  have hupper : ((app.sharerNames.map cases.snakecaseIdent).map cases.toUppercase).Nodup := by
    rw [List.map_map]
    exact h.sublist (hsublist.map _)
  have hsnake := List.Nodup.of_map _ hupper
  have heq : (fun name => sharedResourcesIdent (cases.snakecaseIdent name)) =
      affix "__" "_shared_resources" ∘ cases.snakecaseIdent := by
    funext name
    exact congrArg (affix _ _) (unraw_of_not_mem (hcases.snake name))
  rw [heq, ← List.map_map]
  exact hsnake.map (affix_injective _ _)

theorem typeNames_disjoint (snakes fields : List Ident) (n : Nat) (cores : List Nat) :
    List.Disjoint (snakes.map sharedResourcesIdent) (fields.map getProxyName) ∧
      List.Disjoint (snakes.map sharedResourcesIdent ++ fields.map getProxyName)
        (cores.map (taskInitsIdent n)) := by
  constructor
  · rw [List.disjoint_left]
    intro name hsnake hproxy
    obtain ⟨s, -, rfl⟩ := List.mem_map.mp hsnake
    obtain ⟨f, -, hf⟩ := List.mem_map.mp hproxy
    exact affix_ne_of_post (c := 'x') (d := 's') (by decide) (by decide) (by decide) hf
  · rw [List.disjoint_left]
    intro name hname hinits
    obtain ⟨core, -, hcore⟩ := List.mem_map.mp hinits
    have hhead := taskInitsIdent_head n core
    rw [hcore] at hhead
    rcases List.mem_append.mp hname with hname | hname
    · obtain ⟨s, -, rfl⟩ := List.mem_map.mp hname
      exact affix_ne_of_head (c := '_') (by decide) hhead (by decide) rfl
    · obtain ⟨f, -, rfl⟩ := List.mem_map.mp hname
      exact affix_ne_of_head (c := '_') (by decide) hhead (by decide) rfl

theorem valueNames_disjoint (hcases : cases.Lawful) (structs fields : List Ident) :
    List.Disjoint (structs.map cases.uppercaseIdent) (fields.map getProxyName) := by
  rw [List.disjoint_left]
  intro name hupper hproxy
  obtain ⟨s, -, rfl⟩ := List.mem_map.mp hupper
  obtain ⟨f, -, hf⟩ := List.mem_map.mp hproxy
  have hlower : 'm' ∈ (getProxyName f).toList := mem_affix (by decide)
  rw [hf] at hlower
  have hnot := hcases.upper _ 'm' hlower
  revert hnot
  decide

/-! ## When the names are distinct -/

/-- What keeps the names apart. -/
structure App.NamesApart (cases : Cases) (app : App) : Prop where
  /-- no two shared structs, tasks and idle have one name in upper case -/
  structs : (app.structs.map cases.uppercaseIdent).Nodup
  /-- no field occurs in two shared structs -/
  fields : (app.fields.map unraw).Nodup

/--
**The generated items have distinct names exactly when those of the structs differ in upper case and
no two fields are named alike**, whatever their cores.
-/
theorem names_distinct_iff (hcases : cases.Lawful) {args : AppArgs} {items : List Item}
    (hparse : App.parse args items = .ok app) (hrun : Analysis.run app = .ok (app', analysis)) :
    Distinct (app'.items cases analysis) ↔ app.NamesApart cases := by
  have hlen := (Analysis.run_length hrun).ge
  obtain ⟨hstructs, hfields⟩ := Analysis.run_sameNames hrun
  have hcores : app'.subApps.map (·.core) = List.range app'.subApps.length := by
    rw [Analysis.run_cores hrun, App.parse_cores hparse, ← List.length_map (f := (·.core)),
      Analysis.run_cores hrun, App.parse_cores hparse, List.length_range]
  unfold Distinct
  rw [(App.typeNames_perm hlen).nodup_iff, (App.valueNames_perm hlen).nodup_iff, hstructs, hfields,
    hcores]
  have htypes := typeNames_disjoint (app'.sharerNames.map cases.snakecaseIdent) app.fields
    app'.subApps.length (List.range app'.subApps.length)
  rw [List.map_map] at htypes
  constructor
  · rintro ⟨-, hvalues⟩
    obtain ⟨hupper, hproxies, -⟩ := List.nodup_append'.mp hvalues
    exact ⟨hupper, (proxyNames_nodup_iff _).mp hproxies⟩
  · rintro ⟨hupper, hproxies⟩
    have hproxies := (proxyNames_nodup_iff _).mpr hproxies
    have hsharers := sharerNames_nodup hcases (hstructs.symm ▸ hupper : (app'.structs.map _).Nodup)
    refine ⟨?_, List.nodup_append'.mpr ⟨hupper, hproxies, valueNames_disjoint hcases _ _⟩⟩
    refine List.nodup_append'.mpr ⟨?_, taskInitsIdent_nodup _, htypes.2⟩
    exact List.nodup_append'.mpr ⟨hsharers, hproxies, htypes.1⟩

/-- Names of words that begin with a capital. -/
def wordCases : Cases where
  toSnakeCase ident :=
    let chars := ident.toList.flatMap fun c =>
      if c.isUpper then ['_', c.toLower] else if c.isAlphanum then [c] else ['_']
    let words := (chars.splitOn '_').filter fun word => !word.isEmpty
    String.ofList ((['_'].intercalate words).filter (· ≠ '#'))
  toUppercase ident := String.ofList ((ident.toList.map Char.toUpper).filter (!·.isLower))

theorem wordCases_lawful : wordCases.Lawful where
  upper ident c hc := by
    rw [wordCases, String.toList_ofList, List.mem_filter] at hc
    simpa using hc.2
  snake ident h := by
    rw [wordCases, String.toList_ofList, List.mem_filter, decide_eq_true_eq] at h
    exact h.2 rfl

/-- Two cores with a task and a shared resource each. -/
def twoCoreItems (resource0 resource1 : Ident) : List Item := [
  .shared "Shared0" (some 0) [some resource0],
  .shared "Shared1" (some 1) [some resource1],
  .init "init0" (some 0),
  .init "init1" (some 1),
  .task "UartTask0" { binds := some "UART0", shared := some [resource0], core := some 0 },
  .task "UartTask1" { binds := some "UART1", shared := some [resource1], core := some 1 }]

/-- One of the cores, with the ceiling of its resource. -/
def twoCoreSub (core : Nat) (strct init task binds resource : Ident) (ceiling : Nat) : SubApp where
  core := core
  shared := some ⟨core, strct, [⟨resource, ceiling⟩]⟩
  init := ⟨core, init⟩
  postInit := none
  idle := none
  tasks := [{
    args := {
      binds := some binds
      priority := defaultTaskPriority
      shared := [resource]
      core := core
      taskTrait := hwtTraitTy
      initGenerated := false }
    name := task }]

def twoCoreApp (resource0 resource1 : Ident) (ceiling : Nat) : App where
  args := ⟨["mypac", "mypac"], 2⟩
  subApps := [
    twoCoreSub 0 "Shared0" "init0" "UartTask0" "UART0" resource0 ceiling,
    twoCoreSub 1 "Shared1" "init1" "UartTask1" "UART1" resource1 ceiling]

theorem names_distinct_iff_ticks :
    ∃ analysis, Analysis.run (twoCoreApp "counter" "ticks" 0) =
        .ok (twoCoreApp "counter" "ticks" 1, analysis) ∧
      Distinct ((twoCoreApp "counter" "ticks" 1).items wordCases analysis) := by
  have hparse : App.parse ⟨["mypac", "mypac"], 2⟩ (twoCoreItems "counter" "ticks") =
      .ok (twoCoreApp "counter" "ticks" 0) := rfl
  refine ⟨_, rfl, (names_distinct_iff wordCases_lawful hparse rfl).mpr ?_⟩
  exact ⟨by decide +kernel, by decide +kernel⟩

/-- A counter on each core has one proxy, `__counter_mutex`, defined twice; two tasks that differ in
an underscore have one static. -/
theorem names_collide :
    (∃ analysis, App.parse ⟨["mypac", "mypac"], 2⟩ (twoCoreItems "counter" "counter") =
        .ok (twoCoreApp "counter" "counter" 0) ∧
      Analysis.run (twoCoreApp "counter" "counter" 0) =
        .ok (twoCoreApp "counter" "counter" 1, analysis) ∧
      (twoCoreApp "counter" "counter" 0).structs.Nodup ∧
      ¬ Distinct ((twoCoreApp "counter" "counter" 1).items wordCases analysis)) ∧
    ∃ app app' analysis, App.parse ⟨["mypac"], 1⟩
        [.init "init" none, .task "LedTask" {}, .task "Led_Task" {}] = .ok app ∧
      Analysis.run app = .ok (app', analysis) ∧ app.structs.Nodup ∧
      ¬ Distinct (app'.items wordCases analysis) :=
  ⟨⟨_, rfl, rfl, by decide +kernel, by decide +kernel⟩,
    ⟨_, _, _, rfl, rfl, by decide +kernel, by decide +kernel⟩⟩

end Rticx.Core
