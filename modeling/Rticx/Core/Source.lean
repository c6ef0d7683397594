import Rticx.Core.Analysis
import Rticx.Core.Attr

/-!
# The items of the module

`rticx-core/src/parser/mod.rs` once more, with the items themselves: which item becomes what, and
which item code generation writes out again. `parse_erase` says that the names and arguments are
those of `Core.App.parse`.
-/

namespace Rticx.Core.Source

open Rticx.Core Rticx.Lib.Except

/-! ## Items -/

/-- What stands after the path of an attribute. -/
inductive MetaArgs where
  | path
  | list (tokens : List (Ident × Option Expr))
  | nameValue
  /-- a list that is not one of arguments, with the error for it -/
  | malformed (message : String)
  deriving DecidableEq

structure Attribute where
  path : List Ident
  args : MetaArgs
  deriving DecidableEq

structure ItemFn where
  ident : Ident
  attrs : List Attribute
  tokens : String
  deriving DecidableEq

structure ItemStruct where
  ident : Ident
  attrs : List Attribute
  /-- a field without a name is one of a tuple struct -/
  fields : List (Option Ident)
  tokens : String
  deriving DecidableEq

structure ItemImpl where
  /-- the path of the trait -/
  traitPath : Option (List Ident)
  /-- the path of the type, when the type is a path -/
  selfTy : Option (List Ident)
  tokens : String
  deriving DecidableEq

/-- An item of another kind: a `use`, a constant, an enum and so on. -/
structure OtherItem where
  attrs : List Attribute
  tokens : String
  deriving DecidableEq

inductive ModuleItem where
  | fn (function : ItemFn)
  | strct (strct : ItemStruct)
  | impl (implItem : ItemImpl)
  | use (item : OtherItem)
  | other (item : OtherItem)
  deriving DecidableEq

/-- `RticAttr::from_meta` -/
def fromMeta (attr : Attribute) : Except String RticAttr :=
  match attr.path with
  | [name] =>
    match attr.args with
    | .path => .ok { name := name, elements := ∅ }
    | .list tokens => .ok (RticAttr.parseFromTokens tokens name)
    | .nameValue => .error "expected attribute of the form `#[name(key = value, ...)]`"
    | .malformed message => .error message
  | _ => .error "expected a single-segment attribute name"

/-! ## Sorting the items -/

/-- The first attribute of this name, with the attributes that stay. -/
def takeAttr (name : Ident) : List Attribute → Option (Attribute × List Attribute)
  | [] => none
  | attr :: attrs =>
    if attr.path = [name] then some (attr, attrs)
    else (takeAttr name attrs).map fun taken => (taken.1, attr :: taken.2)

/-- `capture_trait_impl` -/
def captureTraitImpl (implItem : ItemImpl) : Option Ident :=
  match implItem.traitPath, implItem.selfTy with
  | some (_ :: _), some segments => segments.getLast?
  | _, _ => none

/-- `impl_trait_str` -/
def implTraitStr (implItem : ItemImpl) : Option Ident := implItem.traitPath.bind List.getLast?

/-- Where the loop of `App::parse` puts an item, without the attribute that decides it. -/
inductive Sorted where
  | init (function : ItemFn) (attr : Attribute)
  | postInit (function : ItemFn) (attr : Attribute)
  | task (strct : ItemStruct) (attr : Attribute)
  | shared (strct : ItemStruct) (attr : Attribute)
  | idle (strct : ItemStruct) (attr : Attribute)
  | taskImpl (implementor : Ident) (implItem : ItemImpl)
  | userInclude (item : OtherItem)
  | otherCode (item : ModuleItem)
  deriving DecidableEq

def sortFn (function : ItemFn) : Sorted :=
  match takeAttr "init" function.attrs with
  | some (attr, attrs) => .init { function with attrs := attrs } attr
  | none =>
    match takeAttr "post_init" function.attrs with
    | some (attr, attrs) => .postInit { function with attrs := attrs } attr
    | none => .otherCode (.fn function)

def sortStruct (strct : ItemStruct) : Sorted :=
  match takeAttr "task" strct.attrs with
  | some (attr, attrs) => .task { strct with attrs := attrs } attr
  | none =>
    match takeAttr "shared" strct.attrs with
    | some (attr, attrs) => .shared { strct with attrs := attrs } attr
    | none =>
      match takeAttr "idle" strct.attrs with
      | some (attr, attrs) => .idle { strct with attrs := attrs } attr
      | none => .otherCode (.strct strct)

/-- The body of the loop. -/
def ModuleItem.sort : ModuleItem → Sorted
  | .fn function => sortFn function
  | .strct itemStruct => sortStruct itemStruct
  | .impl implItem =>
    match captureTraitImpl implItem with
    | some implementor => .taskImpl implementor implItem
    | none => .otherCode (.impl implItem)
  | .use item => .userInclude item
  | .other item => .otherCode (.other item)

/-- The item that a sorted item still is. -/
def Sorted.item : Sorted → ModuleItem
  | .init function _ | .postInit function _ => .fn function
  | .task strct _ | .shared strct _ | .idle strct _ => .strct strct
  | .taskImpl _ implItem => .impl implItem
  | .userInclude item => .use item
  | .otherCode item => item

/-! ## The parts of the app -/

structure InitTask where
  core : Nat
  body : ItemFn

structure RticTask where
  args : TaskArgs
  taskStruct : ItemStruct
  structImpl : Option ItemImpl

structure SharedResources where
  core : Nat
  strct : ItemStruct
  resources : List SharedElement

structure SubApp where
  core : Nat
  shared : Option SharedResources
  init : InitTask
  postInit : Option InitTask
  idle : Option RticTask
  tasks : List RticTask

structure App where
  args : AppArgs
  subApps : List SubApp
  userIncludes : List OtherItem
  otherCode : List ModuleItem

/-- `InitTaskArgs::parse`, and `SharedResourcesArgs::parse`. -/
def coreArg (attr : Attribute) : Except String Nat := do
  let attr ← fromMeta attr
  attr.ensureSupported ["core"]
  return (← attr.takeInt "core" (2 ^ 32)).getD 0

/-- `TaskArgs::parse` -/
def taskArgs (attr : Attribute) : Except String TaskArgs := do TaskArgs.fromAttr (← fromMeta attr)

/-- The value of a core in a `HashMap` keyed by cores. -/
def lookup {α : Type} (key : α → Nat) (out : List α) (core : Nat) : Option α :=
  out.find? (key · = core)

/-- Add the value of a core, which must be its first. -/
def insert {α : Type} (key : α → Nat) (what : String) (out : List α) (core : Nat)
    (value : Except String α) : Except String (List α) :=
  if (lookup key out core).isSome then .error s!"multiple {what} for core {core}"
  else value.map fun a => out ++ [a]

/-- The implementation of a trait for a struct, among those of the module. -/
def findImpl (taskImpls : List (Ident × ItemImpl)) (ident traitTy : Ident) : Option ItemImpl :=
  (taskImpls.find? fun taskImpl =>
    taskImpl.1 = ident ∧ implTraitStr taskImpl.2 = some traitTy).map Prod.snd

/-- `construct_shared_resources` -/
def constructSharedResources (items : List Sorted) : Except String (List SharedResources) :=
  items.foldlM (fun out item => do
    match item with
    | .shared strct attr =>
      let core ← coreArg attr
      insert SharedResources.core "`#[shared]` structs" out core do
        return ⟨core, strct, ← strct.fields.mapM App.parseElement⟩
    | _ => return out) []

/-- `construct_inits` -/
def constructInits (items : List Sorted) : Except String (List InitTask) := do
  let out ← items.foldlM (fun out item => do
    match item with
    | .init function attr =>
      let core ← coreArg attr
      insert InitTask.core "`#[init]` functions" out core (pure ⟨core, function⟩)
    | _ => return out) []
  if out.isEmpty then .error "No function with #[init] attribute was found in this module."
  else .ok out

/-- `construct_post_inits` -/
def constructPostInits (items : List Sorted) : Except String (List InitTask) :=
  items.foldlM (fun out item => do
    match item with
    | .postInit function attr =>
      let core ← coreArg attr
      insert InitTask.core "`#[post_init]` functions" out core (pure ⟨core, function⟩)
    | _ => return out) []

/-- `construct_idle_tasks` -/
def constructIdleTasks (items : List Sorted) (taskImpls : List (Ident × ItemImpl)) :
    Except String (List RticTask) :=
  items.foldlM (fun out item => do
    match item with
    | .idle strct attr =>
      let args ← taskArgs attr
      insert (·.args.core) "`#[idle]` structs" out args.core
        (pure ⟨{ args with taskTrait := idleTraitTy }, strct,
          findImpl taskImpls strct.ident idleTraitTy⟩)
    | _ => return out) []

/-- `construct_rtic_tasks`, without the partition by cores. -/
def constructRticTasks (items : List Sorted) (taskImpls : List (Ident × ItemImpl)) :
    Except String (List RticTask) :=
  items.foldlM (fun out item => do
    match item with
    | .task strct attr =>
      let args ← taskArgs attr
      return out ++ [⟨args, strct, findImpl taskImpls strct.ident args.taskTrait⟩]
    | _ => return out) []

def Sorted.taskImpl? : Sorted → Option (Ident × ItemImpl)
  | .taskImpl implementor implItem => some (implementor, implItem)
  | _ => none

def Sorted.userInclude? : Sorted → Option OtherItem
  | .userInclude item => some item
  | _ => none

def Sorted.otherCode? : Sorted → Option ModuleItem
  | .otherCode item => some item
  | _ => none

/-- The name of the trait and of the type of an implementation that is captured. -/
def Sorted.implName? : Sorted → Option Item
  | .taskImpl implementor implItem => some (.impl ((implTraitStr implItem).getD "?") implementor)
  | _ => none

/-- `App::parse` -/
def App.parse (args : AppArgs) (items : List ModuleItem) : Except String App := do
  let items := items.map ModuleItem.sort
  let taskImpls := items.filterMap Sorted.taskImpl?
  Core.App.checkImpls (items.filterMap Sorted.implName?)
  let shared ← constructSharedResources items
  let inits ← constructInits items
  let postInits ← constructPostInits items
  let idles ← constructIdleTasks items taskImpls
  let tasks ← constructRticTasks items taskImpls
  -- partition into sub applications
  let subApps ← (List.range args.cores).mapM fun core => do
    match lookup InitTask.core inits core with
    | some init =>
      return {
        core := core
        shared := lookup SharedResources.core shared core
        init := init
        postInit := lookup InitTask.core postInits core
        idle := lookup (·.args.core) idles core
        tasks := tasks.filter (·.args.core = core) }
    | none => throw s!"No `#[init]` function was found for core {core}."
  return {
    args := args
    subApps := subApps
    userIncludes := items.filterMap Sorted.userInclude?
    otherCode := items.filterMap Sorted.otherCode? }

/-! ## What is written out -/

/-- The items of the user in `generate_task_def`. -/
def RticTask.generateTaskDef (task : RticTask) : List ModuleItem :=
  .strct task.taskStruct :: task.structImpl.toList.map .impl

/-- The items of the user in `generate_sub_app`; that of `post_init` stands in the entry
function. -/
def SubApp.generateSubApp (app : SubApp) : List ModuleItem :=
  app.shared.toList.map (fun shared => .strct shared.strct) ++ [.fn app.init.body] ++
    app.idle.toList.flatMap RticTask.generateTaskDef ++
    app.tasks.flatMap RticTask.generateTaskDef ++
    app.postInit.toList.map fun postInit => .fn postInit.body

/-- The items of the user in `CodeGen::run`. -/
def App.generate (app : App) : List ModuleItem :=
  app.userIncludes.map .use ++ app.otherCode ++ app.subApps.flatMap SubApp.generateSubApp

end Rticx.Core.Source
