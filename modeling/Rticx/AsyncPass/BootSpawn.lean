import Rticx.AsyncPass.Dispatch
import Rticx.Core.Boot

/-!
# Spawns while the cores boot

`main_injection` of the software and the async pass: in front of the post-initialization, the entry
function of each core sets the flag that `spawn` asks for. Each pass has one flag, but there is one
entry function for each core, and they run in whatever order. The first core to set the flag sets
it for all, also for those that are still in their `#[init]` function.
-/

namespace Rticx.AsyncPass.BootSpawn

open Lib Spsc SwPass
open Rticx.Core (Cases MainInjectionPoint Statement SubAnalysis generateSubApp)

/-! ## The entry functions -/

/-- The passes that generate `spawn` and `cross_spawn`. -/
inductive Pass where
  | sw
  | async
  deriving DecidableEq

/-- A priority group with the pass that generates it and its executor. -/
structure PassGroup where
  pass : Pass
  kind : Kind
  group : Group

/-- A statement of an entry function that the passes have injected into. -/
inductive BootStatement where
  | core (stmt : Statement)
  /-- `__rticx_sw_system_initialized = true` or `__rticx_async_system_initialized = true` -/
  | setInitialized (pass : Pass)
  deriving DecidableEq

/-- `has_tasks` -/
def hasTasks (groups : List PassGroup) (pass : Pass) : Bool := groups.any (·.pass = pass)

/-- `main_injection`, as far as it sets the flag of the pass. -/
def mainInjection (groups : List PassGroup) (pass : Pass) :
    MainInjectionPoint → Option BootStatement
  | .beforePostInit => if hasTasks groups pass then some (.setInitialized pass) else none
  | .entryStart | .beforeInit | .beforeIdle => none

/-- A statement with what the two passes inject at it. -/
def injected (groups : List PassGroup) : Statement → List BootStatement
  | .inject point =>
    .core (.inject point) ::
      [Pass.sw, Pass.async].filterMap fun pass => mainInjection groups pass point
  | stmt => [.core stmt]

/-- The entry function of a core. -/
def entry (cases : Cases) (groups : List PassGroup) (sub : Core.SubApp) : List BootStatement :=
  (generateSubApp cases sub (SubAnalysis.run sub)).flatMap (injected groups)

/-! ## The cores -/

variable {cases : Cases} {groups : List PassGroup} {subs : List Core.SubApp} {I : Type}
  {hasCoreId : Bool}

/-- What each core has left of its entry function, and the statics of all groups. -/
structure State (groups : List PassGroup) (subs : List Core.SubApp) (I : Type) where
  rest : Fin subs.length → List BootStatement
  statics : (i : Fin groups.length) → Statics (groups.get i).group I

/-- What may happen next; `core` is the core it happens on, and `i` the group it happens to. -/
inductive Action (groups : List PassGroup) (subs : List Core.SubApp) (I : Type) where
  /-- the entry function of the core executes its next statement -/
  | next (core : Fin subs.length)
  /-- some code on the core calls `spawn` or `cross_spawn` -/
  | spawn (core : Fin subs.length) (i : Fin groups.length) (t : (groups.get i).group.Task)
      (input : I) (pendOk : Bool)
  /-- the executor of the group takes a task out of its ready queue -/
  | dequeueReady (i : Fin groups.length)
  /-- it takes an input of a task -/
  | dequeueInput (i : Fin groups.length) (t : (groups.get i).group.Task)
  /-- its interrupt is pended or taken -/
  | setPending (i : Fin groups.length) (pending : Bool)

/-- Change the statics of one group. -/
def State.setStatics (s : State groups subs I) (i : Fin groups.length)
    (statics : Statics (groups.get i).group I) : State groups subs I :=
  { s with statics := Function.update s.statics i statics }

/-- The flag of a pass is one for all its groups. -/
def State.setInitialized (s : State groups subs I) (pass : Pass) : State groups subs I :=
  { s with statics := fun i =>
      if (groups.get i).pass = pass then { s.statics i with systemInitialized := true }
      else s.statics i }

/-- The answer of a spawn, and the statics behind it. -/
def State.spawn (s : State groups subs I) (hasCoreId : Bool) (core : Fin subs.length)
    (i : Fin groups.length) (t : (groups.get i).group.Task) (input : I) (pendOk : Bool) :
    Except (Option I) Unit × Statics (groups.get i).group I :=
  SwPass.spawn ((groups.get i).kind.spawnApi (groups.get i).group hasCoreId t) t input core pendOk
    (s.statics i)

/-- The entry function of a core executes its next statement. -/
def next (s : State groups subs I) (core : Fin subs.length) : Option (State groups subs I) :=
  match s.rest core with
  | [] => none
  | .core _ :: rest => some { s with rest := Function.update s.rest core rest }
  | .setInitialized pass :: rest =>
    some { s.setInitialized pass with rest := Function.update s.rest core rest }

/-- The cores and the executors, in any order. -/
def step (hasCoreId : Bool) (s : State groups subs I) :
    Action groups subs I → Option (State groups subs I)
  | .next core => next s core
  | .spawn core i t input pendOk =>
    some (s.setStatics i (s.spawn hasCoreId core i t input pendOk).2)
  | .dequeueReady i =>
    (s.statics i).ready.dequeue.map fun x => s.setStatics i { s.statics i with ready := x.2 }
  | .dequeueInput i t =>
    let q := ((s.statics i).inputs t).dequeueUnchecked.2
    some (s.setStatics i { s.statics i with inputs := Function.update (s.statics i).inputs t q })
  | .setPending i pending => some (s.setStatics i { s.statics i with pending := pending })

/-- The cores from reset. -/
def machine (cases : Cases) (groups : List PassGroup) (subs : List Core.SubApp) (I : Type)
    (hasCoreId : Bool) : Machine (State groups subs I) (Action groups subs I) where
  init :=
    { rest := fun core => entry cases groups (subs.get core)
      statics := fun _ => Statics.new }
  step := step hasCoreId

/-! ## Spawns by `#[init]` code -/

/-- The core executes its `#[init]` function. -/
def State.InInit (s : State groups subs I) (core : Fin subs.length) : Prop :=
  (s.rest core).head? = some (.core .init)

instance (s : State groups subs I) (core : Fin subs.length) : Decidable (s.InInit core) :=
  inferInstanceAs (Decidable (_ = _))

/-- A spawn by the code of an `#[init]` function hands its input back and changes nothing. -/
def FailsCleanly (hasCoreId : Bool) (s : State groups subs I) : Action groups subs I → Prop
  | .spawn core i t input pendOk =>
    s.InInit core → s.spawn hasCoreId core i t input pendOk = (.error (some input), s.statics i)
  | _ => True

/--
A spawn by the code of an `#[init]` function is stopped: no core has executed its injection, or the
core check refuses the caller, or there is no room for the input.
-/
def Stopped (hasCoreId : Bool) (s : State groups subs I) : Action groups subs I → Prop
  | .spawn core i t _ _ =>
    s.InInit core →
      (∀ core', .setInitialized (groups.get i).pass ∈ s.rest core') ∨
      ((groups.get i).kind.spawnApi (groups.get i).group hasCoreId t).coreCheck.any
        (core.val != ·) = true ∨
      ((s.statics i).inputs t).isFull = true
  | _ => True

/-! ## Where the flag is set -/

theorem mem_injected_iff {pass : Pass} {stmt : Statement} :
    .setInitialized pass ∈ injected groups stmt ↔
      stmt = .inject .beforePostInit ∧ hasTasks groups pass = true := by
  cases stmt with
  | inject point =>
    cases point
    case beforePostInit =>
      cases pass <;> cases hs : hasTasks groups .sw <;> cases ha : hasTasks groups .async <;>
        simp [injected, mainInjection, hs, ha]
    all_goals simp [injected, mainInjection]
  | _ => simp [injected]

theorem count_injected (pass : Pass) (stmt : Statement) :
    (injected groups stmt).count (.setInitialized pass) ≤ 1 := by
  cases stmt with
  | inject point =>
    cases point
    case beforePostInit =>
      cases pass <;> cases hs : hasTasks groups .sw <;> cases ha : hasTasks groups .async <;>
        simp [injected, mainInjection, hs, ha]
    all_goals simp [injected, mainInjection]
  | _ => simp [injected]

theorem core_mem_injected_iff {stmt stmt' : Statement} :
    .core stmt ∈ injected groups stmt' ↔ stmt = stmt' := by
  cases stmt' with
  | inject point =>
    cases point
    case beforePostInit =>
      cases hs : hasTasks groups .sw <;> cases ha : hasTasks groups .async <;>
        simp [injected, mainInjection, hs, ha]
    all_goals simp [injected, mainInjection]
  | _ => simp [injected]

theorem core_mem_flatMap_iff {stmt : Statement} {stmts : List Statement} :
    .core stmt ∈ stmts.flatMap (injected groups) ↔ stmt ∈ stmts := by
  simp [List.mem_flatMap, core_mem_injected_iff]

theorem setInitialized_not_mem {pass : Pass} {stmts : List Statement}
    (h : .inject .beforePostInit ∉ stmts) :
    .setInitialized pass ∉ stmts.flatMap (injected groups) := by
  rw [List.mem_flatMap]
  rintro ⟨stmt, hmem, hset⟩
  obtain ⟨rfl, -⟩ := mem_injected_iff.mp hset
  exact h hmem

/-- The injection point in front of the post-initialization comes once, behind the call of
`#[init]`. -/
theorem entry_eq (cases : Cases) (groups : List PassGroup) (sub : Core.SubApp) :
    ∃ before after, entry cases groups sub = before ++ .core .init :: after ∧
      .core .init ∉ before ∧ .core .init ∉ after ∧
      ∀ pass, .setInitialized pass ∉ before ∧ after.count (.setInitialized pass) ≤ 1 ∧
        (hasTasks groups pass = true → .setInitialized pass ∈ after) := by
  have hshape := Core.generateSubApp_eq cases sub
  refine ⟨Core.beforeInit.flatMap (injected groups), (sub.closureRest cases ++ .closureEnd ::
    (sub.beforeExec cases ++ [sub.idleExec cases])).flatMap (injected groups), ?_, ?_, ?_,
    fun pass => ⟨setInitialized_not_mem (by decide), ?_, fun hpass => ?_⟩⟩
  · rw [entry, hshape, List.flatMap_append, List.flatMap_cons]
    rfl
  · exact fun hmem => Core.init_not_mem_beforeInit (core_mem_flatMap_iff.mp hmem)
  · exact fun hmem => Core.init_not_mem_rest (core_mem_flatMap_iff.mp hmem)
  · have hfront : .setInitialized pass ∉
        ((sub.closureWrites cases).map Statement.ofWrite).flatMap (injected groups) :=
      setInitialized_not_mem (by simp [Statement.ofWrite])
    have hback : .setInitialized pass ∉ (.backendPostInit :: .closureEnd :: (sub.beforeExec cases ++
        [sub.idleExec cases])).flatMap (injected groups) := by
      refine setInitialized_not_mem ?_
      unfold Core.SubApp.beforeExec Core.SubApp.idleExec
      cases sub.idle <;> simp [Statement.ofWrite]
    have hsplit : sub.closureRest cases ++ .closureEnd :: (sub.beforeExec cases ++
        [sub.idleExec cases]) = (sub.closureWrites cases).map Statement.ofWrite ++
          .inject .beforePostInit :: (.backendPostInit :: .closureEnd :: (sub.beforeExec cases ++
            [sub.idleExec cases])) := by
      simp [Core.SubApp.closureRest]
    rw [hsplit, List.flatMap_append, List.flatMap_cons, List.count_append, List.count_append,
      List.count_eq_zero.mpr hfront, List.count_eq_zero.mpr hback, Nat.zero_add, Nat.add_zero]
    exact count_injected pass _
  · refine List.mem_flatMap.mpr ⟨.inject .beforePostInit, ?_, mem_injected_iff.mpr ⟨rfl, hpass⟩⟩
    simp [Core.SubApp.closureRest]

theorem hasTasks_of_group (i : Fin groups.length) : hasTasks groups (groups.get i).pass = true :=
  List.any_eq_true.mpr ⟨groups.get i, List.get_mem groups i, decide_eq_true rfl⟩

/-! ## The invariant -/

/-- A flag is set exactly if some core has executed the injection. -/
structure Inv (cases : Cases) (s : State groups subs I) : Prop where
  done : ∀ core, ∃ done, entry cases groups (subs.get core) = done ++ s.rest core
  flag : ∀ i, (s.statics i).systemInitialized = true ↔
    ∃ core, .setInitialized (groups.get i).pass ∉ s.rest core

variable {s s' : State groups subs I}

theorem entry_mem (cases : Cases) (sub : Core.SubApp) (i : Fin groups.length) :
    .setInitialized (groups.get i).pass ∈ entry cases groups sub := by
  obtain ⟨before, after, heq, -, -, h⟩ := entry_eq cases groups sub
  rw [heq]
  exact List.mem_append_right _ (List.mem_cons_of_mem _ ((h _).2.2 (hasTasks_of_group i)))

theorem entry_count (cases : Cases) (sub : Core.SubApp) (pass : Pass) :
    (entry cases groups sub).count (.setInitialized pass) ≤ 1 := by
  obtain ⟨before, after, heq, -, -, h⟩ := entry_eq cases groups sub
  rw [heq, List.count_append, List.count_eq_zero.mpr (h pass).1, Nat.zero_add,
    List.count_cons_of_ne (by rintro ⟨⟩)]
  exact (h pass).2.1

theorem inv_init : Inv cases (machine cases groups subs I hasCoreId).init where
  done := fun core => ⟨[], rfl⟩
  flag := fun i => ⟨by rintro ⟨⟩, fun ⟨core, hmem⟩ => absurd (entry_mem cases _ i) hmem⟩

/-- The injection is executed once. -/
theorem Inv.not_mem_rest (h : Inv cases s) {core : Fin subs.length} {pass : Pass}
    {rest : List BootStatement} (hrest : s.rest core = .setInitialized pass :: rest) :
    .setInitialized pass ∉ rest := by
  obtain ⟨done, hdone⟩ := h.done core
  have hcount := @entry_count groups cases (subs.get core) pass
  rw [hdone, hrest, List.count_append, List.count_cons_self] at hcount
  exact List.count_eq_zero.mp (by omega)

theorem Inv.next (h : Inv cases s) {core : Fin subs.length} (hs : BootSpawn.next s core = some s') :
    Inv cases s' := by
  -- the statement moves over to those the core has executed
  have hdone : ∀ stmt rest, s.rest core = stmt :: rest → ∀ core', ∃ done,
      entry cases groups (subs.get core') = done ++ Function.update s.rest core rest core' := by
    intro stmt rest hrest core'
    obtain ⟨done, hdone⟩ := h.done core'
    by_cases hcore : core' = core
    · subst hcore
      refine ⟨done ++ [stmt], ?_⟩
      rw [Function.update_self, hdone, hrest, List.append_assoc, List.singleton_append]
    · exact ⟨done, by rw [Function.update_of_ne hcore, hdone]⟩
  have hmem : ∀ stmt rest, s.rest core = stmt :: rest → ∀ pass, stmt ≠ .setInitialized pass →
      ∀ core', .setInitialized pass ∈ Function.update s.rest core rest core' ↔
        .setInitialized pass ∈ s.rest core' := by
    intro stmt rest hrest pass hne core'
    by_cases hcore : core' = core
    · subst hcore
      simp [hrest, Ne.symm hne]
    · rw [Function.update_of_ne hcore]
  unfold BootSpawn.next at hs
  rcases hrest : s.rest core with _ | ⟨stmt | pass, rest⟩
  · rw [hrest] at hs
    cases hs
  · rw [hrest] at hs
    cases hs
    refine ⟨hdone _ _ hrest, fun i => ?_⟩
    simp only [hmem _ _ hrest _ (by rintro ⟨⟩)]
    exact h.flag i
  · rw [hrest] at hs
    cases hs
    refine ⟨hdone _ _ hrest, fun i => ?_⟩
    by_cases hpass : (groups.get i).pass = pass
    · simp only [State.setInitialized, if_pos hpass, true_iff]
      refine ⟨core, ?_⟩
      rw [Function.update_self, hpass]
      exact h.not_mem_rest hrest
    · have hne : BootStatement.setInitialized pass ≠ .setInitialized (groups.get i).pass := by
        rintro ⟨⟩
        exact hpass rfl
      simp only [State.setInitialized, if_neg hpass, hmem _ _ hrest _ hne]
      exact h.flag i

/-- The executors and the spawns leave the flag alone. -/
theorem Inv.setStatics (h : Inv cases s) {i : Fin groups.length}
    {statics : Statics (groups.get i).group I}
    (hflag : statics.systemInitialized = (s.statics i).systemInitialized) :
    Inv cases (s.setStatics i statics) where
  done := h.done
  flag := by
    intro i'
    by_cases hi : i' = i
    · subst hi
      simp only [State.setStatics, Function.update_self, hflag]
      exact h.flag i'
    · simp only [State.setStatics, Function.update_of_ne hi]
      exact h.flag i'

theorem inv_step {a : Action groups subs I} (h : Inv cases s) (hs : step hasCoreId s a = some s') :
    Inv cases s' := by
  rcases a with core | ⟨core, i, t, input, pendOk⟩ | i | ⟨i, t⟩ | ⟨i, pending⟩
  · exact h.next hs
  · cases hs
    exact h.setStatics (spawn_systemInitialized ..)
  · obtain ⟨x, -, rfl⟩ := Option.map_eq_some_iff.mp hs
    exact h.setStatics rfl
  · cases hs
    exact h.setStatics rfl
  · cases hs
    exact h.setStatics rfl

theorem inv_reachable (h : (machine cases groups subs I hasCoreId).Reachable s) : Inv cases s :=
  h.invariant inv_init fun _ _ _ _ hi hs => inv_step hi hs

/-! ## Every order of the cores -/

theorem failsCleanly_iff (h : Inv cases s) (a : Action groups subs I) :
    FailsCleanly hasCoreId s a ↔ Stopped hasCoreId s a := by
  rcases a with core | ⟨core, i, t, input, pendOk⟩ | i | ⟨i, t⟩ | ⟨i, pending⟩
  · exact Iff.rfl
  · have hflag : (s.statics i).systemInitialized = false ↔
        ∀ core', .setInitialized (groups.get i).pass ∈ s.rest core' := by
      rw [← Bool.not_eq_true, h.flag i]
      push Not
      rfl
    refine imp_congr_right fun _ => ?_
    rw [State.spawn, spawn_eq_error_iff, hflag]
    exact or_left_comm
  all_goals exact Iff.rfl

/--
**Spawns in `#[init]` fail as long as every core is in front of its injection.** For every app and
every order in which its cores execute their entry functions, all spawns by the code of `#[init]`
functions hand their inputs back and leave all statics as they are exactly if each of them is called
while no core has executed the injection of the pass yet, or is refused for another reason.
-/
theorem init_spawns_fail_iff (as : List (Action groups subs I)) :
    (machine cases groups subs I hasCoreId).Along (FailsCleanly hasCoreId)
        (machine cases groups subs I hasCoreId).init as ↔
      (machine cases groups subs I hasCoreId).Along (Stopped hasCoreId)
        (machine cases groups subs I hasCoreId).init as := by
  refine Machine.along_congr (fun s a hr => ?_) Machine.Reachable.init as
  exact failsCleanly_iff (inv_reachable hr) a

/-- Two cores, the second with one task of the software pass. -/
def twoCoreItems : List Core.Item := [
  .init "init_0" (some 0),
  .init "init_1" (some 1),
  .task "Blink" { priority := some 2, core := some 1, taskTrait := some "RticSwTask" },
  .task "Core1Priority2Dispatcher"
    { binds := some "SWI0", priority := some 2, core := some 1, init := some "generated" }]

def blinkCores : List Core.SubApp := [
  ⟨0, none, ⟨0, "init_0"⟩, none, none, []⟩,
  ⟨1, none, ⟨1, "init_1"⟩, none, none, [
    ⟨⟨none, 2, [], 1, "RticSwTask", false⟩, "Blink"⟩,
    ⟨⟨some "SWI0", 2, [], 1, Core.hwtTraitTy, true⟩, "Core1Priority2Dispatcher"⟩]⟩]

def blinkGroups : List PassGroup := [
  { pass := .sw, kind := .dispatcher
    group := { core := 1, tasks := [⟨"Blink", 1, 2⟩], capacity_pos := by decide } }]

def firstCore : Fin blinkCores.length := ⟨0, by decide⟩

def secondCore : Fin blinkCores.length := ⟨1, by decide⟩

def blinkGroup : Fin blinkGroups.length := ⟨0, by decide⟩

def blink : (blinkGroups.get blinkGroup).group.Task := ⟨0, by decide⟩

abbrev blinkMachine :
    Machine (State blinkGroups blinkCores Nat) (Action blinkGroups blinkCores Nat) :=
  machine ⟨id, id⟩ blinkGroups blinkCores Nat true

/-- The first core boots beyond its injection, while the second comes to its `#[init]` function. -/
def firstCoreBoots : List (Action blinkGroups blinkCores Nat) :=
  List.replicate 6 (.next firstCore) ++ List.replicate 3 (.next secondCore)

/-- `Blink::spawn(7)` in the `#[init]` function of the second core succeeds. -/
theorem init_spawn_succeeds :
    Core.App.parse ⟨["pac0", "pac1"], 2⟩ twoCoreItems =
        .ok ⟨⟨["pac0", "pac1"], 2⟩, blinkCores⟩ ∧
      ∃ s, blinkMachine.exec blinkMachine.init firstCoreBoots = some s ∧ s.InInit secondCore ∧
        (s.spawn true secondCore blinkGroup blink 7 true).1 = .ok () ∧
        ¬ FailsCleanly true s (.spawn secondCore blinkGroup blink 7 true) := by
  refine ⟨rfl, _, rfl, rfl, rfl, fun h => ?_⟩
  exact absurd (congrArg Prod.fst (h rfl)) (by rintro ⟨⟩)

/-- A core in its `#[init]` function is in front of its own injection. -/
theorem Inv.mem_of_inInit (h : Inv cases s) {core : Fin subs.length} (hinit : s.InInit core)
    (i : Fin groups.length) : .setInitialized (groups.get i).pass ∈ s.rest core := by
  obtain ⟨done, hdone⟩ := h.done core
  obtain ⟨rest, hrest⟩ := List.head?_eq_some_iff.mp hinit
  obtain ⟨before, after, heq, hbefore, hafter, hset⟩ := entry_eq cases groups (subs.get core)
  rw [heq, hrest] at hdone
  obtain ⟨-, -, rfl⟩ := (List.append_cons_inj_of_notMem hbefore hafter).mp hdone
  rw [hrest]
  exact List.mem_cons_of_mem _ ((hset _).2.2 (hasTasks_of_group i))

/-- **On one core no spawn in `#[init]` succeeds.** -/
theorem init_spawn_fails_one_core (hone : subs.length = 1)
    (h : (machine cases groups subs I hasCoreId).Reachable s) (a : Action groups subs I) :
    FailsCleanly hasCoreId s a := by
  have hi := inv_reachable h
  have hsub : Subsingleton (Fin subs.length) := by
    rw [hone]
    infer_instance
  rw [failsCleanly_iff hi]
  rcases a with core | ⟨core, i, t, input, pendOk⟩ | i | ⟨i, t⟩ | ⟨i, pending⟩
  · trivial
  · intro hinit
    refine Or.inl fun core' => ?_
    rw [hsub.elim core' core]
    exact hi.mem_of_inInit hinit i
  all_goals trivial

end Rticx.AsyncPass.BootSpawn
