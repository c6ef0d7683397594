import Rticx.AsyncPass.Codegen
import Rticx.SwPass.Producers

/-!
# One core spawns, one core consumes

Both passes generate code in which each queue has one core that enqueues and one dispatcher, or idle
executor, that dequeues.
-/

namespace Rticx.AsyncPass

open Rticx.Core (Ident)
open Rticx.Core.Source (ModuleItem)
open Rticx.Lib Rticx.SwPass Rticx.SwPass.Producers

/-- `run_pass` of the pass, up to the code generation. -/
def passApp : TaskPass → Bool → AppParameters → List ModuleItem →
    Except String (App × List SwPass.SubAnalysis)
  | .software => SwPass.runPass
  | .async => AsyncPass.runPass

/-- The code of the pass. -/
def passCode : TaskPass → Bool → App → List SwPass.SubAnalysis → Code
  | .software => SwPass.generateSubapps
  | .async => AsyncPass.generateSubapps

variable {pass : TaskPass} {appParams : AppParameters} {items : List ModuleItem} {app : App}
  {analysis : List SwPass.SubAnalysis}

theorem passGrouped (h : passApp pass true appParams items = .ok (app, analysis)) :
    Grouped app.tasks (passCode pass true app analysis) := by
  cases pass with
  | software => exact SwPass.grouped h
  | async => exact AsyncPass.grouped h

/--
**Every queue has one producer core and one consumer.** Of two statics with one name no code can be
compiled, so the input queues of different tasks have different names.
-/
theorem single_producer (h : passApp pass true appParams items = .ok (app, analysis))
    (hstatics : ((passCode pass true app analysis).spawns.map SpawnFn.inputsQueue).Nodup)
    {currentCoreId : Nat → Nat} (hid : ∀ core, currentCoreId core = core) {s : State}
    (hs : (machine (passCode pass true app analysis) currentCoreId).Reachable s) :
    (passCode pass true app analysis).consumers.Nodup ∧
    (∀ task ∈ app.tasks, ∃ k ∈ (passCode pass true app analysis).consumers,
      k.core = task.params.core ∧ k.priority = task.params.priority ∧
      Discipline s.log (swTaskInputsIdent task.name) task.producer task.cross k) ∧
    (∀ k ∈ (passCode pass true app analysis).consumers, ∃ task ∈ app.tasks,
      task.params.core = k.core ∧ task.params.priority = k.priority ∧
      Discipline s.log k.readyQueue task.producer task.cross k) := by
  have hgrouped := passGrouped h
  have hinv := inv hid hs
  refine ⟨List.Nodup.of_map _ hgrouped.groups, ?_, ?_⟩
  · intro task htask
    obtain ⟨k, hk, hcore, hpriority⟩ := hgrouped.consumer task htask
    exact ⟨k, hk, hcore, hpriority,
      hinv.discipline (owned_inputsQueue hgrouped hstatics htask hk hcore hpriority)⟩
  · intro k hk
    obtain ⟨arm, harm⟩ := List.exists_mem_of_ne_nil _ (hgrouped.arms_ne_nil k hk)
    obtain ⟨task, htask, hcore, hpriority, _⟩ := hgrouped.arms k hk arm harm
    refine ⟨task, htask, hcore, hpriority, ?_⟩
    have howned := owned_readyQueue hgrouped htask hk hcore.symm hpriority.symm
    have hready : (task.generateSpawnApi true).readyQueue = k.readyQueue := by
      rw [hgrouped.readyQueue k hk, ← hcore, ← hpriority]
      rfl
    rw [hready] at howned
    exact hinv.discipline howned

def twoCores : AppParameters := ⟨AList.singleton 1 [["IRQ"]], 2⟩

/-- A task for the idle executor of core 0, and one on core 1 that core 0 spawns. -/
def twoCoreItems : List ModuleItem :=
  [asyncTask "Local" [],
    asyncTask "Remote" [("core", some (.int 1)), ("spawn_by", some (.int 0)),
      ("priority", some (.int 2))]]

def remoteInputs : Ident := "__rticx_internal__Remote__INPUTS"

def remoteReady : Ident := "__rticx_internal__Core1Prio2Tasks__RQ"

/-- The call on core 1 is rejected, the one on core 0 is taken by the dispatcher. -/
def crossSpawnRun : List Action :=
  let remote : SpawnFn := ⟨"Remote", remoteInputs, remoteReady, true, some 0⟩
  let go (core : Nat) : Action := .step core ⟨true, ⟨"Remote", remoteInputs⟩⟩
  [.call 1 remote, go 1, .call 0 remote, go 0, go 0, go 0, go 0, go 0,
    .enter 1 ⟨.async, 1, 2, remoteReady, [⟨"Remote", remoteInputs⟩]⟩, go 1, go 1, go 1]

theorem single_producer_cross_spawn : ∃ app analysis s,
    passApp .async true twoCores twoCoreItems = .ok (app, analysis) ∧
    (machine (passCode .async true app analysis) id).exec
      (machine (passCode .async true app analysis) id).init crossSpawnRun = some s ∧
    s.log.map (fun e => (e.queue, e.core)) =
      [(remoteInputs, 0), (remoteReady, 0), (remoteReady, 1), (remoteInputs, 1)] ∧
    ∃ k ∈ (passCode .async true app analysis).consumers,
      k.core = 1 ∧ k.priority = 2 ∧ Discipline s.log remoteInputs 0 true k := by
  refine ⟨_, _, _, rfl, rfl, by decide +kernel, ?_⟩
  have h := @single_producer .async twoCores twoCoreItems _ _ rfl (by decide +kernel) id
    (fun _ => rfl) _ (Machine.reachable_iff_exec.mpr ⟨crossSpawnRun, rfl⟩)
  exact h.2.1 _ (List.mem_cons_of_mem _ List.mem_cons_self)

end Rticx.AsyncPass
