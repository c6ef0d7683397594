import Rticx.SwPass.App

/-!
# Parsing and analysing async tasks

`rticx-async-pass/src/parse` and `analyze.rs`, where they differ from the software pass: async tasks
may have priority 0, for which the idle task of the core becomes their executor.
-/

namespace Rticx.AsyncPass

open Rticx.Core (Ident Expr)
open Rticx.Core.Source (ModuleItem takeAttr)
open Rticx.SwPass

/-- `has_user_idle`: a struct that is no async task has the attribute. -/
def hasUserIdle (items : List ModuleItem) : Bool :=
  items.any fun item =>
    match item with
    | .strct strct =>
      (takeAttr TaskPass.async.attrName strct.attrs).isNone &&
        strct.attrs.any fun attr => attr.path = ["idle"]
    | _ => false

/-- `has_prio_0` -/
def hasPrio0 (app : App) : Bool :=
  app.subApps.any fun sub => sub.tasks.any fun task => task.params.priority = 0

/-- `App::parse` -/
def App.parse (appParams : AppParameters) (items : List ModuleItem) : Except String App := do
  let app ← App.parseTasks .async appParams items
  if hasPrio0 app && hasUserIdle items then
    .error ("Cannot define a custom `#[idle]` task when priority-0 async tasks are present. Use " ++
      "`#[post_init]` to spawn initial tasks instead.")
  else return app

/-- `SubAnalysis::analyse_subapp` -/
def SubAnalysis.analyseSubapp (subApp : SubApp) : Except String SubAnalysis :=
  match subApp.mcSwTasks.find? fun task => task.params.priority = 0 with
  | some task =>
    .error (s!"Async task `{task.name}`: cross-core spawn (spawn_by != core) is not supported for " ++
      "priority-0 tasks. Use priority > 0 instead.")
  | none =>
    analyseGroups subApp
      (groupByPriority (subApp.swTasks.filter fun task => task.params.priority ≠ 0)
        fun _ => subApp.core)
      (groupByPriority subApp.mcSwTasks fun task => task.params.spawnBy)
      ((subApp.swTasks.filter fun task => task.params.priority = 0).map
        (SoftwareTask.entry fun _ => subApp.core))

/-- `AsyncPass::run_pass`, up to the code generation. -/
def runPass (hasCoreId : Bool) (appParams : AppParameters) (items : List ModuleItem) :
    Except String (App × List SubAnalysis) := do
  let parsed ← App.parse appParams items
  checkCurrentCoreId hasCoreId parsed ("this application has cross-core tasks, but the distribution " ++
    "backend does not implement `AsyncPassBackend::current_core_id`. Multicore distributions must " ++
    "provide a runtime core-id expression to enforce cross-core spawning.")
  let analysis ← parsed.subApps.mapM SubAnalysis.analyseSubapp
  return (parsed, analysis)

/-- An async task with these arguments. -/
def asyncTask (ident : Ident) (args : List (Ident × Option Expr)) : ModuleItem :=
  .strct ⟨ident, [⟨["async_task"], .list args⟩], [], ";"⟩

end Rticx.AsyncPass
