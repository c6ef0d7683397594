import Mathlib.Algebra.Ring.Nat
import Mathlib.Tactic.Common

/-!
# Parsing an app

`rticx-core/src/parser`: the items of the app module are sorted by their attribute, checked, and
partitioned into one sub-app for each core. An attribute is given by the values of its arguments;
what is in the module besides the items with an attribute plays no part here.
-/

namespace Rticx.Core

/-- An identifier, as it is written. -/
abbrev Ident := String

/-! ## Attributes -/

/-- The arguments of a task or idle attribute. -/
structure TaskAttr where
  binds : Option Ident := none
  priority : Option Nat := none
  shared : Option (List Ident) := none
  core : Option Nat := none
  taskTrait : Option Ident := none
  init : Option Ident := none

/-- `take_int`: the value of an integer literal, which has to be below `bound`. -/
def takeInt (key : Ident) (bound : Nat) : Option Nat → Except String (Option Nat)
  | none => .ok none
  | some n =>
    if n < bound then .ok (some n)
    else .error s!"`{key}` must be an integer literal: number too large to fit in target type"

/-- The argument that all attributes have. -/
def takeCore (core : Option Nat) : Except String Nat :=
  (takeInt "core" (2 ^ 32) core).map (·.getD 0)

/-- `DEFAULT_TASK_PRIORITY` -/
def defaultTaskPriority : Nat := 1

/-- `HWT_TRAIT_TY` -/
def hwtTraitTy : Ident := "RticTask"

/-- `IDLE_TRAIT_TY` -/
def idleTraitTy : Ident := "RticIdleTask"

structure TaskArgs where
  binds : Option Ident
  priority : Nat
  shared : List Ident
  core : Nat
  taskTrait : Ident
  initGenerated : Bool
  deriving DecidableEq

/-- The `init` argument of a task. -/
def takeInit : Option Ident → Except String Bool
  | none => .ok false
  | some init => if init = "generated" then .ok true else .error "expected `init = generated`"

/-- `TaskArgs::parse` -/
def TaskArgs.parse (attr : TaskAttr) : Except String TaskArgs := do
  let priority ← takeInt "priority" (2 ^ 16) attr.priority
  let core ← takeCore attr.core
  let initGenerated ← takeInit attr.init
  return {
    binds := attr.binds
    priority := priority.getD defaultTaskPriority
    shared := attr.shared.getD []
    core := core
    taskTrait := attr.taskTrait.getD hwtTraitTy
    initGenerated := initGenerated }

/-! ## The items of the module -/

/-- The items that the parser looks at. -/
inductive Item where
  | init (ident : Ident) (core : Option Nat)
  | postInit (ident : Ident) (core : Option Nat)
  | task (strct : Ident) (attr : TaskAttr)
  | idle (strct : Ident) (attr : TaskAttr)
  /-- a field without a name is one of a tuple struct -/
  | shared (strct : Ident) (core : Option Nat) (fields : List (Option Ident))
  /-- the last segments of the trait and of the type -/
  | impl (traitTy : Ident) (implementor : Ident)

structure InitTask where
  core : Nat
  ident : Ident
  deriving DecidableEq

/-- `RticTask`, also for hardware tasks and idle. -/
structure RticTask where
  args : TaskArgs
  name : Ident
  deriving DecidableEq

structure SharedElement where
  ident : Ident
  priority : Nat
  deriving DecidableEq

structure SharedResources where
  core : Nat
  strct : Ident
  resources : List SharedElement
  deriving DecidableEq

/-- `get_field` -/
def SharedResources.getField (shared : SharedResources) (fieldName : Ident) :
    Option SharedElement :=
  shared.resources.find? (·.ident = fieldName)

structure SubApp where
  core : Nat
  shared : Option SharedResources
  init : InitTask
  postInit : Option InitTask
  idle : Option RticTask
  tasks : List RticTask
  deriving DecidableEq

structure AppArgs where
  pacs : List Ident
  cores : Nat
  deriving DecidableEq

structure App where
  args : AppArgs
  subApps : List SubApp
  deriving DecidableEq

/-! ## Parsing -/

namespace App

/-- The value of a core in a `HashMap` keyed by cores. -/
def lookup {α : Type} (out : List (Nat × α)) (core : Nat) : Option α :=
  (out.find? (·.1 = core)).map Prod.snd

/-- Add the value of a core, which must be its first. -/
def insert {α : Type} (what : String) (out : List (Nat × α)) (core : Nat)
    (value : Except String α) : Except String (List (Nat × α)) :=
  if (lookup out core).isSome then .error s!"multiple {what} for core {core}"
  else value.map fun a => out ++ [(core, a)]

/-- The element for a field of the shared struct; the ceilings come with the analysis. -/
def parseElement : Option Ident → Except String SharedElement
  | some ident => .ok { ident := ident, priority := 0 }
  | none => .error "`#[shared]` struct must use named fields; tuple structs are not supported."

/-- `construct_shared_resources` -/
def constructSharedResources (items : List Item) : Except String (List (Nat × SharedResources)) :=
  items.foldlM (fun out item => do
    match item with
    | .shared strct core fields =>
      let core ← takeCore core
      insert "`#[shared]` structs" out core do
        return ⟨core, strct, ← fields.mapM parseElement⟩
    | _ => return out) []

/-- `construct_inits` -/
def constructInits (items : List Item) : Except String (List (Nat × InitTask)) := do
  let out ← items.foldlM (fun out item => do
    match item with
    | .init ident core =>
      let core ← takeCore core
      insert "`#[init]` functions" out core (pure ⟨core, ident⟩)
    | _ => return out) []
  if out.isEmpty then .error "No function with #[init] attribute was found in this module."
  else .ok out

/-- `construct_post_inits` -/
def constructPostInits (items : List Item) : Except String (List (Nat × InitTask)) :=
  items.foldlM (fun out item => do
    match item with
    | .postInit ident core =>
      let core ← takeCore core
      insert "`#[post_init]` functions" out core (pure ⟨core, ident⟩)
    | _ => return out) []

/-- `construct_idle_tasks` -/
def constructIdleTasks (items : List Item) : Except String (List (Nat × RticTask)) :=
  items.foldlM (fun out item => do
    match item with
    | .idle strct attr =>
      let args ← TaskArgs.parse attr
      insert "`#[idle]` structs" out args.core
        (pure ⟨{ args with taskTrait := idleTraitTy }, strct⟩)
    | _ => return out) []

/-- `construct_rtic_tasks`, without the partition by cores. -/
def constructRticTasks (items : List Item) : Except String (List RticTask) :=
  items.foldlM (fun out item => do
    match item with
    | .task strct attr =>
      let args ← TaskArgs.parse attr
      return out ++ [⟨args, strct⟩]
    | _ => return out) []

/-- The last of the second implementations of a trait for a type. -/
def duplicateImpl : List (Ident × Ident) → List Item → Option (Ident × Ident)
  | _, [] => none
  | seen, .impl traitTy implementor :: items =>
    (duplicateImpl ((traitTy, implementor) :: seen) items).or
      (if (traitTy, implementor) ∈ seen then some (traitTy, implementor) else none)
  | seen, _ :: items => duplicateImpl seen items

def checkImpls (items : List Item) : Except String Unit :=
  match duplicateImpl [] items with
  | some (traitTy, implementor) => .error s!"duplicate `impl {traitTy}` for `{implementor}`"
  | none => .ok ()

/-- `App::parse` -/
def parse (args : AppArgs) (items : List Item) : Except String App := do
  checkImpls items
  let shared ← constructSharedResources items
  let inits ← constructInits items
  let postInits ← constructPostInits items
  let idles ← constructIdleTasks items
  let tasks ← constructRticTasks items
  -- partition into sub applications
  let subApps ← (List.range args.cores).mapM fun core => do
    match lookup inits core with
    | some init =>
      return {
        core := core
        shared := lookup shared core
        init := init
        postInit := lookup postInits core
        idle := lookup idles core
        tasks := tasks.filter (·.args.core = core) }
    | none => throw s!"No `#[init]` function was found for core {core}."
  return { args := args, subApps := subApps }

end App

end Rticx.Core
