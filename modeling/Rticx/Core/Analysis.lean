import Mathlib.Data.List.Dedup
import Rticx.Core.App
import Rticx.Lib.Except

/-!
# The analysis of an app

`rticx-core/src/analysis/mod.rs`: the ceilings of the shared resources and the interrupts in use.
The ceiling of a resource is the highest priority of the tasks of its core that list it, bound to
an interrupt or not.
-/

namespace Rticx.Core

open Lib.Except

/-! ## The analysis -/

structure UsedIrq where
  name : Ident
  priority : Nat
  deriving DecidableEq

structure SubAnalysis where
  usedIrqs : List UsedIrq
  /-- the tasks that the user initializes -/
  lateResourceTasks : List Ident
  deriving DecidableEq

/-- `SubAnalysis::run` -/
def SubAnalysis.run (app : SubApp) : SubAnalysis where
  usedIrqs := app.tasks.filterMap fun t => t.args.binds.map fun name => ⟨name, t.args.priority⟩
  lateResourceTasks := (app.tasks ++ app.idle.toList).filterMap fun t =>
    if t.args.initGenerated then none else some t.name

/-- The interrupts in use are those of the tasks. -/
theorem SubApp.usedIrqs_names (app : SubApp) :
    (SubAnalysis.run app).usedIrqs.map (·.name) = app.tasks.filterMap (·.args.binds) := by
  unfold SubAnalysis.run
  rw [List.map_filterMap]
  refine congrArg (List.filterMap · app.tasks) (funext fun t => ?_)
  cases t.args.binds with
  | none => rfl
  | some name => rfl

/-- The ceiling of a resource before and after a task that lists it. -/
def SharedElement.raise (taskPriority : Nat) (e : SharedElement) : SharedElement :=
  if e.priority < taskPriority then { e with priority := taskPriority } else e

/-- `get_field_mut` and the assignment to the field. -/
def raiseField (fieldName : Ident) (taskPriority : Nat) :
    List SharedElement → Option (List SharedElement)
  | [] => none
  | e :: es =>
    if e.ident = fieldName then some (e.raise taskPriority :: es)
    else (raiseField fieldName taskPriority es).map (e :: ·)

/-- The inner loop of `update_resource_priorities`. -/
def raiseFields (shared : SharedResources) (task : RticTask) : Except String SharedResources :=
  task.args.shared.foldlM (fun shared resourceIdent =>
    match raiseField resourceIdent task.args.priority shared.resources with
    | some resources => .ok { shared with resources := resources }
    | none => .error
        s!"the resource `{resourceIdent}` was not found in the `#[shared]` struct `{shared.strct}`")
    shared

/-- `update_resource_priorities` -/
def updateResourcePriorities (shared : Option SharedResources) (hwTasks : List RticTask) :
    Except String (Option SharedResources) :=
  match shared with
  | none => .ok none
  | some shared => (hwTasks.foldlM raiseFields shared).map some

structure Analysis where
  subAnalysis : List SubAnalysis
  taskTraits : List Ident
  deriving DecidableEq

/-- `Analysis::run`, with the app it updates. -/
def Analysis.run (app : App) : Except String (App × Analysis) := do
  let subApps ← app.subApps.mapM fun sub => do
    let shared ← updateResourcePriorities sub.shared sub.tasks
    return { sub with shared := shared }
  return ({ app with subApps := subApps },
    { subAnalysis := subApps.map SubAnalysis.run
      taskTraits := (subApps.flatMap fun sub =>
        (sub.tasks ++ sub.idle.toList).map (·.args.taskTrait)).dedup })

/-! ## Ceilings

The parser starts every shared resource at priority 0. -/

/-- No ceiling is set yet. -/
def SharedResources.Fresh (shared : SharedResources) : Prop :=
  ∀ e ∈ shared.resources, e.priority = 0

namespace App

theorem lookup_insert {α : Type} {what : String} {out out' : List (Nat × α)} {core : Nat}
    {value : Except String α} {P : α → Prop} (h : insert what out core value = .ok out')
    (hout : ∀ e ∈ out, P e.2) (hvalue : ∀ a, value = .ok a → P a) : ∀ e ∈ out', P e.2 := by
  unfold insert at h
  split at h
  · cases h
  · obtain ⟨a, ha, rfl⟩ := map_eq_ok.mp h
    intro e he
    rcases List.mem_append.mp he with he | he
    · exact hout e he
    · obtain rfl := List.mem_singleton.mp he
      exact hvalue a ha

theorem parseElement_priority {field : Option Ident} {e : SharedElement}
    (h : parseElement field = .ok e) : e.priority = 0 := by
  cases field with
  | none => cases h
  | some ident =>
    cases h
    rfl

theorem constructSharedResources_fresh {items : List Item} {out : List (Nat × SharedResources)}
    (h : constructSharedResources items = .ok out) : ∀ e ∈ out, e.2.Fresh := by
  refine foldlM_ok (P := fun out => ∀ e ∈ out, e.2.Fresh) ?_ ?_ h
  · intro out item out' _ hout hstep
    split at hstep
    · obtain ⟨core, -, hstep⟩ := bind_eq_ok.mp hstep
      refine lookup_insert hstep hout fun shared hshared => ?_
      obtain ⟨resources, hres, hshared⟩ := bind_eq_ok.mp hshared
      cases hshared
      intro e he
      obtain ⟨field, -, hfield⟩ := mapM_ok hres e he
      exact parseElement_priority hfield
    · cases hstep
      exact hout
  · intro e he
    cases he

theorem mem_of_lookup {α : Type} {out : List (Nat × α)} {core : Nat} {a : α}
    (h : lookup out core = some a) : (core, a) ∈ out := by
  obtain ⟨e, he, rfl⟩ := Option.map_eq_some_iff.mp h
  obtain rfl : e.1 = core := by simpa using List.find?_some he
  exact List.mem_of_find?_eq_some he

theorem parse_fresh {args : AppArgs} {items : List Item} {app : App}
    (h : parse args items = .ok app) :
    ∀ sub ∈ app.subApps, ∀ shared, sub.shared = some shared → shared.Fresh := by
  unfold parse at h
  obtain ⟨_, -, h⟩ := bind_eq_ok.mp h
  obtain ⟨shareds, hshareds, h⟩ := bind_eq_ok.mp h
  obtain ⟨_, -, h⟩ := bind_eq_ok.mp h
  obtain ⟨_, -, h⟩ := bind_eq_ok.mp h
  obtain ⟨_, -, h⟩ := bind_eq_ok.mp h
  obtain ⟨_, -, h⟩ := bind_eq_ok.mp h
  obtain ⟨subApps, hsubs, h⟩ := bind_eq_ok.mp h
  cases h
  intro sub hsub shared hshared
  obtain ⟨core, -, hcore⟩ := mapM_ok hsubs sub hsub
  split at hcore
  · cases hcore
    exact constructSharedResources_fresh hshareds _ (mem_of_lookup hshared)
  · cases hcore

end App

/-! ## Idle -/

theorem takeInt_eq_ok {key : Ident} {bound : Nat} {n m : Option Nat}
    (h : takeInt key bound n = .ok m) : m = n := by
  cases n with
  | none =>
    cases h
    rfl
  | some n =>
    unfold takeInt at h
    dsimp only at h
    split at h
    · cases h
      rfl
    · cases h

/-- The priority of a task, idle or not, is that of its attribute. -/
theorem TaskArgs.parse_priority {attr : TaskAttr} {args : TaskArgs}
    (h : TaskArgs.parse attr = .ok args) :
    args.priority = attr.priority.getD defaultTaskPriority := by
  unfold TaskArgs.parse at h
  obtain ⟨priority, hpriority, h⟩ := bind_eq_ok.mp h
  obtain ⟨core, -, h⟩ := bind_eq_ok.mp h
  obtain ⟨init, -, h⟩ := bind_eq_ok.mp h
  cases h
  rw [← takeInt_eq_ok hpriority]

/-- The idle task comes from an item with this attribute. -/
def RticTask.IdleOf (items : List Item) (idle : RticTask) : Prop :=
  ∃ attr, Item.idle idle.name attr ∈ items ∧
    idle.args.priority = attr.priority.getD defaultTaskPriority

namespace App

theorem constructIdleTasks_of {items : List Item} {out : List (Nat × RticTask)}
    (h : constructIdleTasks items = .ok out) : ∀ e ∈ out, e.2.IdleOf items := by
  refine foldlM_ok (P := fun out => ∀ e ∈ out, e.2.IdleOf items) ?_ ?_ h
  · intro out item out' hitem hout hstep
    split at hstep
    · rename_i strct attr
      obtain ⟨args, hargs, hstep⟩ := bind_eq_ok.mp hstep
      refine lookup_insert hstep hout fun idle hidle => ?_
      cases hidle
      have hprio := TaskArgs.parse_priority hargs
      exact ⟨attr, hitem, hprio⟩
    · cases hstep
      exact hout
  · intro e he
    cases he

theorem parse_idle {args : AppArgs} {items : List Item} {app : App}
    (h : parse args items = .ok app) :
    ∀ sub ∈ app.subApps, ∀ idle, sub.idle = some idle → idle.IdleOf items := by
  unfold parse at h
  obtain ⟨_, -, h⟩ := bind_eq_ok.mp h
  obtain ⟨_, -, h⟩ := bind_eq_ok.mp h
  obtain ⟨_, -, h⟩ := bind_eq_ok.mp h
  obtain ⟨_, -, h⟩ := bind_eq_ok.mp h
  obtain ⟨idles, hidles, h⟩ := bind_eq_ok.mp h
  obtain ⟨_, -, h⟩ := bind_eq_ok.mp h
  obtain ⟨subApps, hsubs, h⟩ := bind_eq_ok.mp h
  cases h
  intro sub hsub idle hidle
  obtain ⟨core, -, hcore⟩ := mapM_ok hsubs sub hsub
  split at hcore
  · cases hcore
    exact constructIdleTasks_of hidles _ (mem_of_lookup hidle)
  · cases hcore

end App

/-- The analysis leaves the idle task as it was parsed. -/
theorem Analysis.run_idle {args : AppArgs} {items : List Item} {app app' : App}
    {analysis : Analysis} (hparse : App.parse args items = .ok app)
    (hrun : Analysis.run app = .ok (app', analysis)) {sub : SubApp} (hsub : sub ∈ app'.subApps)
    {idle : RticTask} (hidle : sub.idle = some idle) : idle.IdleOf items := by
  unfold Analysis.run at hrun
  obtain ⟨subApps, hsubs, hrun⟩ := bind_eq_ok.mp hrun
  cases hrun
  obtain ⟨sub₀, hsub₀, hupdate⟩ := mapM_ok hsubs sub hsub
  obtain ⟨shared', -, hupdate⟩ := bind_eq_ok.mp hupdate
  cases hupdate
  exact App.parse_idle hparse sub₀ hsub₀ idle hidle

/-! ## The ceiling of a resource -/

/-- The highest priority of the tasks that list the resource. -/
def ceiling (tasks : List RticTask) (resource : Ident) : Nat :=
  tasks.foldr (fun t c => if resource ∈ t.args.shared then max t.args.priority c else c) 0

theorem le_ceiling {tasks : List RticTask} {t : RticTask} {resource : Ident} (ht : t ∈ tasks)
    (hr : resource ∈ t.args.shared) : t.args.priority ≤ ceiling tasks resource := by
  induction tasks with
  | nil => cases ht
  | cons u tasks ih =>
    rw [ceiling, List.foldr_cons]
    rcases List.mem_cons.mp ht with rfl | ht
    · rw [if_pos hr]
      exact Nat.le_max_left ..
    · split
      · exact Nat.le_trans (ih ht) (Nat.le_max_right ..)
      · exact ih ht

theorem SharedElement.raise_eq (p : Nat) (e : SharedElement) :
    e.raise p = { e with priority := max e.priority p } := by
  unfold SharedElement.raise
  split
  · rw [Nat.max_eq_right (Nat.le_of_lt ‹_›)]
  · rw [Nat.max_eq_left (Nat.le_of_not_lt ‹_›)]

theorem find_raiseField {r : Ident} {p : Nat} {es es' : List SharedElement}
    (h : raiseField r p es = some es') (q : Ident) :
    es'.find? (·.ident = q) =
      (es.find? (·.ident = q)).map fun e => if q = r then e.raise p else e := by
  induction es generalizing es' with
  | nil => cases h
  | cons e es ih =>
    have hident : (e.raise p).ident = e.ident := by rw [e.raise_eq]
    rw [raiseField] at h
    split at h
    · rename_i he
      cases h
      by_cases hq : e.ident = q
      · simp [hident, hq, hq.symm.trans he]
      · have hqr : ¬ q = r := fun hqr => hq (he.trans hqr.symm)
        simp [hident, hq, hqr]
    · rename_i he
      obtain ⟨es'', hes, rfl⟩ := Option.map_eq_some_iff.mp h
      by_cases hq : e.ident = q
      · have hqr : ¬ q = r := fun hqr => he (hq.trans hqr)
        simp [hq, hqr]
      · simp only [List.find?_cons, hq, decide_false]
        exact ih hes

theorem getField_raiseFields {shared shared' : SharedResources} {t : RticTask}
    (h : raiseFields shared t = .ok shared') (q : Ident) :
    shared'.getField q = (shared.getField q).map fun e =>
      if q ∈ t.args.shared then e.raise t.args.priority else e := by
  unfold raiseFields at h
  generalize t.args.shared = rs at h ⊢
  induction rs generalizing shared with
  | nil =>
    cases h
    simp
  | cons r rs ih =>
    rw [List.foldlM_cons, bind_eq_ok] at h
    obtain ⟨s, hs, h⟩ := h
    split at hs
    · rename_i es hes
      cases hs
      have hq : (SharedResources.getField { shared with resources := es } q) = _ :=
        find_raiseField hes q
      rw [ih h, hq, Option.map_map]
      refine congrArg (Option.map · (shared.getField q)) (funext fun e => ?_)
      by_cases hqr : q = r
      · by_cases hmem : q ∈ rs <;> simp [hqr, SharedElement.raise_eq]
      · simp [hqr]
    · cases hs

/-- **The analysis computes the ceilings.** -/
theorem getField_updateResourcePriorities {shared shared' : SharedResources}
    {tasks : List RticTask}
    (h : updateResourcePriorities (some shared) tasks = .ok (some shared')) (q : Ident) :
    shared'.getField q = (shared.getField q).map fun e =>
      { e with priority := max e.priority (ceiling tasks q) } := by
  rw [updateResourcePriorities, map_eq_ok] at h
  obtain ⟨s, h, hs⟩ := h
  cases hs
  induction tasks generalizing shared with
  | nil =>
    cases h
    simp [ceiling]
  | cons t tasks ih =>
    rw [List.foldlM_cons, bind_eq_ok] at h
    obtain ⟨s, hs, h⟩ := h
    rw [ih h, getField_raiseFields hs, Option.map_map]
    refine congrArg (Option.map · (shared.getField q)) (funext fun e => ?_)
    have hc : ceiling (t :: tasks) q =
        if q ∈ t.args.shared then max t.args.priority (ceiling tasks q) else ceiling tasks q := rfl
    rw [hc]
    by_cases hq : q ∈ t.args.shared
    · simp [hq, SharedElement.raise_eq, Nat.max_assoc]
    · simp [hq]

/-- The element of a shared resource of the sub-app. -/
def SubApp.getField (sub : SubApp) (resource : Ident) : Option SharedElement :=
  sub.shared.bind (·.getField resource)

/-- **In an analyzed app every resource has its ceiling.** -/
theorem Analysis.run_ceiling {args : AppArgs} {items : List Item} {app app' : App}
    {analysis : Analysis} (hparse : App.parse args items = .ok app)
    (hrun : Analysis.run app = .ok (app', analysis)) {sub : SubApp} (hsub : sub ∈ app'.subApps)
    {resource : Ident} {e : SharedElement} (he : sub.getField resource = some e) :
    e.priority = ceiling sub.tasks resource := by
  unfold Analysis.run at hrun
  obtain ⟨subApps, hsubs, hrun⟩ := bind_eq_ok.mp hrun
  cases hrun
  obtain ⟨sub₀, hsub₀, hupdate⟩ := mapM_ok hsubs sub hsub
  obtain ⟨shared', hshared', hupdate⟩ := bind_eq_ok.mp hupdate
  cases hupdate
  replace he : shared'.bind (·.getField resource) = some e := he
  obtain ⟨shared', rfl, hfield⟩ := Option.bind_eq_some_iff.mp he
  cases hsh : sub₀.shared with
  | none =>
    rw [hsh] at hshared'
    cases hshared'
  | some shared =>
    rw [hsh] at hshared'
    rw [getField_updateResourcePriorities hshared' resource] at hfield
    obtain ⟨e₀, he₀, rfl⟩ := Option.map_eq_some_iff.mp hfield
    have hfresh := App.parse_fresh hparse sub₀ hsub₀ shared hsh e₀ (List.mem_of_find?_eq_some he₀)
    show max e₀.priority _ = _
    rw [hfresh, Nat.zero_max]

end Rticx.Core
