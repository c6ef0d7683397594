import Rticx.Core.Source

/-!
# The auto-assign pass

`rticx-auto-assign/src`: tasks without a core get the one that their shared resources belong to. The
number of cores is kept in a static, `APP_CORES`: parsing stores it, and what is loaded of it later
is the argument `appCores` here.
-/

namespace Rticx.AutoAssign

open Rticx.Core Rticx.Core.Source Rticx.Lib.Except

/-! ## The app -/

structure RticTask where
  params : RticAttr
  attrIdx : Nat
  sharedItems : List Ident
  taskStruct : ItemStruct
  /-- unless the user has set it, the pass does -/
  core : Option Nat

structure SharedResources where
  core : Nat
  sharedItems : List Ident
  sharedStruct : ItemStruct

structure App where
  sharedResources : List SharedResources
  tasks : List RticTask
  restOfCode : List ModuleItem

/-! ## Parsing -/

/-- `parse_cores_arg` -/
def parseCoresArg (params : RticAttr) : Except String Nat :=
  match params.getExpr "cores" with
  | some (.int cores) =>
    if cores < 2 ^ 32 then .ok cores else .error "number too large to fit in target type"
  | _ => .ok 1

/-- `is_struct_with_attr` -/
def isStructWithAttr (strct : ItemStruct) (attrName : Ident) : Option Nat :=
  strct.attrs.findIdx? fun attr => attr.path = [attrName]

/-- Where the loop of `App::parse` puts an item. -/
inductive Sorted where
  | shared (strct : ItemStruct) (attrIdx : Nat)
  | task (strct : ItemStruct) (attrIdx : Nat)
  | restOfCode (item : ModuleItem)

/-- The attribute of a task that is collected. -/
def taskAttrIdx (strct : ItemStruct) : Option Nat :=
  (isStructWithAttr strct "task").or
    ((isStructWithAttr strct "sw_task").or (isStructWithAttr strct "idle"))

/-- The body of the loop. -/
def sortItem : ModuleItem → Sorted
  | .strct strct =>
    match isStructWithAttr strct "shared" with
    | some attrIdx => .shared strct attrIdx
    | none =>
      match taskAttrIdx strct with
      | some attrIdx => .task strct attrIdx
      | none => .restOfCode (.strct strct)
  | item => .restOfCode item

def Sorted.shared? : Sorted → Option (ItemStruct × Nat)
  | .shared strct attrIdx => some (strct, attrIdx)
  | _ => none

def Sorted.task? : Sorted → Option (ItemStruct × Nat)
  | .task strct attrIdx => some (strct, attrIdx)
  | _ => none

def Sorted.restOfCode? : Sorted → Option ModuleItem
  | .restOfCode item => some item
  | _ => none

/-- `parse_from_attr` of the attribute at the index. -/
def parseFromAttr (strct : ItemStruct) (attrIdx : Nat) : Except String RticAttr :=
  match strct.attrs[attrIdx]? with
  | some attr => fromMeta attr
  | none => .error "index out of bounds"

/-- The core that the user has assigned: a literal that can be read. -/
def readCore (params : RticAttr) : Option Nat :=
  match params.getExpr "core" with
  | some (.int value) => if value < 2 ^ 32 then some value else none
  | _ => none

/-- `format_ident!`, which panics for tokens that are no identifier. -/
def formatIdent : Option Ident → Except String Ident
  | some ident => .ok ident
  | none => .error "not a valid Ident"

def readSharedItems (params : RticAttr) : Except String (List Ident) :=
  match params.getExpr "shared" with
  | some (.array elems) => elems.mapM formatIdent
  | _ => .ok []

/-- `RticTask::from_struct` -/
def RticTask.fromStruct (taskStruct : ItemStruct) (attrIdx : Nat) : Except String RticTask := do
  let params ← parseFromAttr taskStruct attrIdx
  let sharedItems ← readSharedItems params
  return {
    params := params
    attrIdx := attrIdx
    sharedItems := sharedItems
    taskStruct := taskStruct
    core := readCore params }

/-- `expect` panics for a field without a name. -/
def expectIdent : Option Ident → Except String Ident
  | some ident => .ok ident
  | none => .error "Tuple like structs are not supported for shared resources."

/-- The core of a shared struct: a literal that does not fit counts as 0. -/
def sharedCore (appCores : Nat) (params : RticAttr) (ident : Ident) : Except String Nat :=
  match params.getExpr "core" with
  | some (.int value) => .ok (if value < 2 ^ 32 then value else 0)
  | _ =>
    if appCores = 1 then .ok 0
    else .error (s!"`core=M` has to be explicitly assinged in the struct {ident} with #[shared] " ++
      "attribute.")

/-- `SharedResources::from_struct` -/
def SharedResources.fromStruct (appCores : Nat) (sharedStruct : ItemStruct) (attrIdx : Nat) :
    Except String SharedResources := do
  let params ← parseFromAttr sharedStruct attrIdx
  let sharedItems ← sharedStruct.fields.mapM expectIdent
  let core ← sharedCore appCores params sharedStruct.ident
  return { core := core, sharedItems := sharedItems, sharedStruct := sharedStruct }

/-- `App::parse`, behind the store. -/
def App.parseItems (appCores : Nat) (items : List ModuleItem) : Except String App := do
  let sorted := items.map sortItem
  let tasks ← (sorted.filterMap Sorted.task?).mapM fun entry => RticTask.fromStruct entry.1 entry.2
  let sharedResources ← (sorted.filterMap Sorted.shared?).mapM fun entry =>
    SharedResources.fromStruct appCores entry.1 entry.2
  return {
    sharedResources := sharedResources
    tasks := tasks
    restOfCode := sorted.filterMap Sorted.restOfCode? }

/-! ## Assigning cores -/

abbrev ResourceCoreMap := AList fun _ : Ident => Nat

/-- The cores of the resources; their names must be unique. -/
def insertResources (map : ResourceCoreMap) (shared : SharedResources) :
    Except String ResourceCoreMap :=
  shared.sharedItems.foldlM (fun map element =>
    if (map.lookup element).isSome then
      .error (s!"The resource name `{element}` was found on multiple structs with #[shared] " ++
        "attribute, but resource names must be unique.")
    else .ok (map.insert element shared.core)) map

/-- `resource_core_map` -/
def resourceCoreMap (sharedResources : List SharedResources) : Except String ResourceCoreMap :=
  sharedResources.foldlM insertResources ∅

/-- `assign_core` -/
def RticTask.assignCore (task : RticTask) (core : Nat) : RticTask :=
  { task with
    core := some core
    params := { task.params with elements := task.params.elements.insert "core" (.int core) } }

def RticTask.name (task : RticTask) : Ident := task.taskStruct.ident

/-- The body of the loop over the tasks. -/
def RticTask.infer (appCores : Nat) (map : ResourceCoreMap) (task : RticTask) :
    Except String RticTask :=
  if task.core.isSome then .ok task
  else if appCores = 1 then .ok (task.assignCore 0)
  else
    match task.sharedItems with
    | [] => .error (s!"A core needs to be explicitly assigned to {task.name} task since it uses " ++
        "no shared resources that allow automatic core assingment.")
    | firstElement :: rest =>
      match map.lookup firstElement with
      | none => .error (s!"The resource `{firstElement}` was not found in any of the structs with " ++
          "#[shared] attribute.")
      | some assumedCore =>
        if rest.any fun e => map.lookup e ≠ some assumedCore then
          .error s!"The task `{task.name}` is only allowed to use resources from core {assumedCore}."
        else .ok (task.assignCore assumedCore)

/-- `auto_assign::run` -/
def run (appCores : Nat) (app : App) : Except String App := do
  let map ← resourceCoreMap app.sharedResources
  let tasks ← app.tasks.mapM (RticTask.infer appCores map)
  return { app with tasks := tasks }

/-! ## Code generation -/

/-- The struct with its new attribute. -/
def RticTask.generate (task : RticTask) : ItemStruct :=
  { task.taskStruct with
    attrs := ⟨[task.params.name], .list task.params.argsTokens⟩ ::
      task.taskStruct.attrs.eraseIdx task.attrIdx }

/-- `CodeGen::run` -/
def App.generate (app : App) : List ModuleItem :=
  app.restOfCode ++ (app.sharedResources.map fun shared => .strct shared.sharedStruct) ++
    app.tasks.map fun task => .strct task.generate

/-- `run_pass` of a pass that runs alone. -/
def runPass (params : RticAttr) (items : List ModuleItem) : Except String (List ModuleItem) := do
  let cores ← parseCoresArg params
  let app ← App.parseItems cores items
  let app ← run cores app
  return app.generate

end Rticx.AutoAssign
