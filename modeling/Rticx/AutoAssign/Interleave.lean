import Rticx.AutoAssign.CoreArguments
import Rticx.Lib.Processes

/-!
# Several apps at once

The number of cores is a static of the process, so apps that are processed at the same time share it:
an app stores its own count and may load that of another one later. What it loads is only compared
with 1, and then not by all steps. An app comes out as it does alone when each of the other steps
finds a count that is 1 just when its own is.
-/

namespace Rticx.AutoAssign

open Rticx.Core Rticx.Core.Source Rticx.Lib Rticx.Lib.Except

/-! ## The steps of the pass -/

/-- What the pass is called with. -/
structure Invocation where
  params : RticAttr
  items : List ModuleItem

/-- What comes of an app that is processed alone: the app with its cores, or an error. -/
def Invocation.alone (call : Invocation) : Except String App := do
  let cores ← parseCoresArg call.params
  let app ← App.parseItems cores call.items
  run cores app

/-- How far an app is. -/
inductive Phase where
  | called
  /-- the count is stored -/
  | stored
  /-- in `App::parse`, at the shared structs -/
  | parsing (app : App) (todo : List (ItemStruct × Nat))
  | parsed (app : App)
  /-- in `auto_assign::run`, at the tasks: those that are done, and those that are not -/
  | assigning (app : App) (map : ResourceCoreMap) (tasks todo : List RticTask)
  | returned (result : Except String App)

/-- `?` -/
def orReturn {α : Type} (x : Except String α) (next : α → Phase) : Phase :=
  match x with
  | .ok a => next a
  | .error e => .returned (.error e)

/-- The items are sorted and the tasks are read. -/
def parseTasks (items : List ModuleItem) : Phase :=
  let sorted := items.map sortItem
  orReturn ((sorted.filterMap Sorted.task?).mapM fun entry => RticTask.fromStruct entry.1 entry.2)
    fun tasks => .parsing
      { sharedResources := [], tasks := tasks, restOfCode := sorted.filterMap Sorted.restOfCode? }
      (sorted.filterMap Sorted.shared?)

/-- A step takes the value of `APP_CORES` and leaves one behind. -/
def Invocation.step (call : Invocation) (appCores : Nat) : Phase → Option (Nat × Phase)
  | .called =>
    match parseCoresArg call.params with
    | .ok cores => some (cores, .stored)
    | .error e => some (appCores, .returned (.error e))
  | .stored => some (appCores, parseTasks call.items)
  | .parsing app [] => some (appCores, .parsed app)
  | .parsing app (entry :: todo) =>
    some (appCores, orReturn (SharedResources.fromStruct appCores entry.1 entry.2) fun shared =>
      .parsing { app with sharedResources := app.sharedResources ++ [shared] } todo)
  | .parsed app =>
    some (appCores, orReturn (resourceCoreMap app.sharedResources) fun map =>
      .assigning app map [] app.tasks)
  | .assigning app _ tasks [] => some (appCores, .returned (.ok { app with tasks := tasks }))
  | .assigning app map tasks (task :: todo) =>
    some (appCores, orReturn (task.infer appCores map) fun task =>
      .assigning app map (tasks ++ [task]) todo)
  | .returned _ => none

variable {ι : Type} [DecidableEq ι]

/-- The value of `APP_CORES`, and where each app is. -/
abbrev State (ι : Type) := Nat × (ι → Phase)

def processes (calls : ι → Invocation) : Processes ι Nat Phase where
  step i := (calls i).step

/-- Any number of apps in one process. -/
def machine (calls : ι → Invocation) : Machine (State ι) ι :=
  (processes calls).machine 1 fun _ => .called

/-! ## What a step depends on -/

/-- A shared struct that is read as one, and has no core. -/
def needsCoresShared (entry : ItemStruct × Nat) : Bool :=
  match parseFromAttr entry.1 entry.2, entry.1.fields.mapM expectIdent with
  | .ok params, .ok _ =>
    match params.getExpr "core" with
    | some (.int _) => false
    | _ => true
  | _, _ => false

/-- A task without a core that would not get core 0 in any case. -/
def needsCoresTask (map : ResourceCoreMap) (task : RticTask) : Bool :=
  task.core.isNone && (task.sharedItems.isEmpty || task.sharedItems.any (map.lookup · ≠ some 0))

/-- The next step does something else when there is one core. -/
def Phase.needsCores : Phase → Bool
  | .parsing _ (entry :: _) => needsCoresShared entry
  | .assigning _ map _ (task :: _) => needsCoresTask map task
  | _ => false

/-- The number of cores of the app itself. -/
def Invocation.cores? (call : Invocation) : Option Nat := (parseCoresArg call.params).toOption

/-- A step that needs the number of cores finds one of the kind that its app has. -/
def FindsOwn (calls : ι → Invocation) (s : State ι) (i : ι) : Prop :=
  (s.2 i).needsCores = true → ∀ cores ∈ (calls i).cores?, s.1 = 1 ↔ cores = 1

instance (calls : ι → Invocation) (s : State ι) (i : ι) : Decidable (FindsOwn calls s i) :=
  inferInstanceAs (Decidable (_ → _))

/-! ## Steps that do not depend on the count -/

variable {appCores cores : Nat} {call : Invocation} {calls : ι → Invocation}

theorem sharedCore_congr {params : RticAttr} (ident : Ident)
    (h : (∀ value, params.getExpr "core" ≠ some (.int value)) → (appCores = 1 ↔ cores = 1)) :
    sharedCore appCores params ident = sharedCore cores params ident := by
  unfold sharedCore
  split
  · rfl
  · rename_i hcore
    simp only [h hcore]

theorem fromStruct_congr {entry : ItemStruct × Nat}
    (h : needsCoresShared entry = true → (appCores = 1 ↔ cores = 1)) :
    SharedResources.fromStruct appCores entry.1 entry.2 =
      SharedResources.fromStruct cores entry.1 entry.2 := by
  unfold SharedResources.fromStruct
  unfold needsCoresShared at h
  cases hparams : parseFromAttr entry.1 entry.2 with
  | error e => rfl
  | ok params =>
    cases hitems : entry.1.fields.mapM expectIdent with
    | error e => rfl
    | ok sharedItems =>
      have hcore : sharedCore appCores params entry.1.ident =
          sharedCore cores params entry.1.ident := by
        refine sharedCore_congr _ fun hcore => h ?_
        simp only [hparams, hitems]
      show (sharedCore appCores params entry.1.ident >>= _) = _
      rw [hcore]
      rfl

/-- A task whose resources are all on core 0 gets it one way or the other. -/
theorem infer_of_zero {map : ResourceCoreMap} {task : RticTask} (hcore : task.core = none)
    (hne : task.sharedItems ≠ []) (hzero : ∀ r ∈ task.sharedItems, map.lookup r = some 0) :
    task.infer appCores map = .ok (task.assignCore 0) := by
  obtain ⟨first, rest, hitems⟩ := List.exists_cons_of_ne_nil hne
  rw [hitems, List.forall_mem_cons] at hzero
  obtain ⟨hfirst, hrest⟩ := hzero
  have hany : (rest.any fun e => map.lookup e ≠ some 0) = false := by
    rw [List.any_eq_false]
    intro r hr
    simp [hrest r hr]
  unfold RticTask.infer
  rw [hcore, hitems]
  by_cases hone : appCores = 1
  · simp [hone]
  · simp only [Option.isSome_none, Bool.false_eq_true, if_false, if_neg hone, hfirst, hany]

theorem infer_congr {map : ResourceCoreMap} {task : RticTask}
    (h : needsCoresTask map task = true → (appCores = 1 ↔ cores = 1)) :
    task.infer appCores map = task.infer cores map := by
  by_cases hneeds : needsCoresTask map task = true
  · unfold RticTask.infer
    simp only [h hneeds]
  · cases hcore : task.core with
    | some core =>
      unfold RticTask.infer
      rw [hcore]
      rfl
    | none =>
      simp only [needsCoresTask, hcore, Option.isNone_none, Bool.true_and, Bool.or_eq_true,
        List.isEmpty_iff, List.any_eq_true, not_or, not_exists, not_and, decide_eq_true_eq,
        not_not] at hneeds
      rw [infer_of_zero hcore hneeds.1 hneeds.2, infer_of_zero hcore hneeds.1 hneeds.2]

/-! ## What an app leads to -/

/-- What comes of an app when it goes on alone, with this count. -/
def Invocation.rest (call : Invocation) (cores : Nat) : Phase → Except String App
  | .called => call.alone
  | .stored => do
    let app ← App.parseItems cores call.items
    run cores app
  | .parsing app todo => do
    let more ← todo.mapM fun entry => SharedResources.fromStruct cores entry.1 entry.2
    run cores { app with sharedResources := app.sharedResources ++ more }
  | .parsed app => run cores app
  | .assigning app map tasks todo => do
    let more ← todo.mapM (RticTask.infer cores map)
    return { app with tasks := tasks ++ more }
  | .returned result => result

theorem rest_orReturn {α : Type} (x : Except String α) (next : α → Phase) :
    call.rest cores (orReturn x next) = x >>= fun a => call.rest cores (next a) := by
  cases x <;> rfl

theorem rest_parseTasks : call.rest cores (parseTasks call.items) = call.rest cores .stored := by
  unfold parseTasks
  rw [rest_orReturn]
  show _ = App.parseItems cores call.items >>= run cores
  unfold App.parseItems
  rw [bind_assoc]
  refine congrArg (_ >>= ·) (funext fun tasks => ?_)
  show (_ >>= _) = _
  rw [bind_assoc]
  rfl

/-- **A step leads to what its app would lead to alone**, when it finds a count of the right
kind. -/
theorem rest_step {phase phase' : Phase} {x : Nat} (hcores : parseCoresArg call.params = .ok cores)
    (hneeds : phase.needsCores = true → (appCores = 1 ↔ cores = 1))
    (h : call.step appCores phase = some (x, phase')) :
    call.rest cores phase' = call.rest cores phase := by
  cases phase with
  | called =>
    rw [Invocation.step, hcores] at h
    cases h
    show _ = call.alone
    rw [Invocation.alone, hcores]
    rfl
  | stored =>
    cases h
    exact rest_parseTasks
  | parsing app todo =>
    cases todo with
    | nil =>
      cases h
      show run cores app = run cores { app with sharedResources := app.sharedResources ++ [] }
      rw [List.append_nil]
    | cons entry todo =>
      cases h
      rw [rest_orReturn, fromStruct_congr hneeds]
      refine Eq.trans ?_ mapM_cons_bind.symm
      refine congrArg (_ >>= ·) (funext fun shared => ?_)
      refine congrArg (_ >>= ·) (funext fun more => ?_)
      show run cores _ = run cores _
      rw [List.append_assoc]
      rfl
  | parsed app =>
    cases h
    rw [rest_orReturn]
    rfl
  | assigning app map tasks todo =>
    cases todo with
    | nil =>
      cases h
      show _ = Except.ok { app with tasks := tasks ++ [] }
      rw [List.append_nil]
      rfl
    | cons task todo =>
      cases h
      rw [rest_orReturn, infer_congr hneeds]
      refine Eq.trans ?_ mapM_cons_bind.symm
      refine congrArg (_ >>= ·) (funext fun task' => ?_)
      refine congrArg (_ >>= ·) (funext fun more => ?_)
      show Except.ok _ = Except.ok _
      rw [List.append_assoc]
      rfl
  | returned result => cases h

/-! ## Apps that are on their way -/

/-- The app leads to what it leads to alone. -/
structure OnTrack (call : Invocation) (phase : Phase) : Prop where
  ok : ∀ cores, parseCoresArg call.params = .ok cores → call.rest cores phase = call.alone
  error : ∀ e, parseCoresArg call.params = .error e →
    phase = .called ∨ phase = .returned call.alone

theorem onTrack_called : OnTrack call .called := ⟨fun _ _ => rfl, fun _ _ => .inl rfl⟩

theorem OnTrack.alone {result : Except String App} (h : OnTrack call (.returned result)) :
    result = call.alone := by
  cases hcores : parseCoresArg call.params with
  | ok cores => exact h.ok cores hcores
  | error e =>
    rcases h.error e hcores with hphase | hphase
    · cases hphase
    · exact Phase.returned.inj hphase

theorem OnTrack.step {phase phase' : Phase} {x : Nat} (h : OnTrack call phase)
    (hneeds : phase.needsCores = true → ∀ cores ∈ call.cores?, appCores = 1 ↔ cores = 1)
    (hstep : call.step appCores phase = some (x, phase')) : OnTrack call phase' where
  ok cores hcores := by
    have hmem : cores ∈ call.cores? := by
      rw [Invocation.cores?, hcores]
      rfl
    rw [rest_step hcores (fun hphase => hneeds hphase cores hmem) hstep]
    exact h.ok cores hcores
  error e hcores := by
    rcases h.error e hcores with rfl | rfl
    · rw [Invocation.step, hcores] at hstep
      cases hstep
      refine .inr (congrArg Phase.returned ?_)
      rw [Invocation.alone, hcores]
      rfl
    · cases hstep

/-- **An app whose steps find what they need leads to its result alone**, whatever the others
do. -/
theorem along_onTrack {as : List ι} {s t : State ι} (hs : ∀ i, OnTrack (calls i) (s.2 i))
    (hfinds : (machine calls).Along (FindsOwn calls) s as)
    (hrun : (machine calls).exec s as = some t) : ∀ i, OnTrack (calls i) (t.2 i) :=
  Processes.along_keeps (Q := fun i => OnTrack (calls i)) (fun _ _ _ _ hC hQ => hQ.step hC) hs
    hfinds hrun

/-! ## Counts that are stored -/

/-- The count is stored and may still be loaded. -/
def Phase.underway : Phase → Bool
  | .called => false
  | .returned _ => false
  | _ => true

/-- Where an app stores its count, the apps underway have counts of the same kind. -/
def StoresOwn (calls : ι → Invocation) (s : State ι) (i : ι) : Prop :=
  s.2 i = .called → ∀ j, (s.2 j).underway = true →
    ∀ cores ∈ (calls i).cores?, ∀ cores' ∈ (calls j).cores?, cores = 1 ↔ cores' = 1

/-- Every app underway would find what it needs. -/
def CountsAgree (calls : ι → Invocation) (s : State ι) : Prop :=
  ∀ i, (s.2 i).underway = true → ∀ cores ∈ (calls i).cores?, s.1 = 1 ↔ cores = 1

theorem underway_of_needsCores {phase : Phase} (h : phase.needsCores = true) :
    phase.underway = true := by
  cases phase <;> first | rfl | cases h

/-- A step that does not store leaves the count, and was underway before. -/
theorem step_underway {phase phase' : Phase} {x : Nat} (hne : phase ≠ .called)
    (h : call.step appCores phase = some (x, phase')) : x = appCores ∧ phase.underway = true := by
  cases phase with
  | called => exact absurd rfl hne
  | stored | parsed app =>
    cases h
    exact ⟨rfl, rfl⟩
  | parsing app todo | assigning app map tasks todo =>
    cases todo with
    | nil | cons =>
      cases h
      exact ⟨rfl, rfl⟩
  | returned result => cases h

/-- The first step stores the count, or the app returns with an error. -/
theorem step_called {phase' : Phase} {x : Nat} (h : call.step appCores .called = some (x, phase')) :
    x ∈ call.cores? ∧ phase' = .stored ∨ x = appCores ∧ phase'.underway = false := by
  rw [Invocation.step] at h
  split at h
  · rename_i cores hcores
    cases h
    refine .inl ⟨?_, rfl⟩
    rw [Invocation.cores?, hcores]
    rfl
  · cases h
    exact .inr ⟨rfl, rfl⟩

theorem countsAgree_step {s t : State ι} {i : ι} (hs : CountsAgree calls s)
    (hstores : StoresOwn calls s i) (h : (machine calls).step s i = some t) :
    CountsAgree calls t := by
  refine Processes.rely_step (P := processes calls) (s := s)
    (R := fun j x (phase : Phase) => phase.underway = true →
      ∀ cores ∈ (calls j).cores?, x = 1 ↔ cores = 1) ?_ ?_ hs h
  · intro x phase' hR hstep hunderway cores hcores
    by_cases hcalled : s.2 i = .called
    · rw [hcalled] at hstep
      rcases step_called hstep with ⟨hx, -⟩ | ⟨-, hnot⟩
      · rw [Option.mem_unique hx hcores]
      · rw [hnot] at hunderway
        cases hunderway
    · obtain ⟨rfl, hbefore⟩ := step_underway hcalled hstep
      exact hR hbefore cores hcores
  · intro j x phase' _ hR hstep hunderway cores hcores
    by_cases hcalled : s.2 i = .called
    · have hown := hstores hcalled j hunderway
      rw [hcalled] at hstep
      rcases step_called hstep with ⟨hx, -⟩ | ⟨rfl, -⟩
      · exact hown x hx cores hcores
      · exact hR hunderway cores hcores
    · obtain ⟨rfl, -⟩ := step_underway hcalled hstep
      exact hR hunderway cores hcores

/-- **Apps that store counts of one kind while they overlap find their own kind.** -/
theorem along_findsOwn {as : List ι} {s : State ι} (hs : CountsAgree calls s)
    (hstores : (machine calls).Along (StoresOwn calls) s as) :
    (machine calls).Along (FindsOwn calls) s as :=
  Machine.Along.of_invariant (fun _ _ _ hP hC hst => countsAgree_step hP hC hst)
    (fun _ i hP _ hneeds => hP i (underway_of_needsCores hneeds)) hs hstores

/-! ## An app alone -/

omit [DecidableEq ι] in
theorem solo_orReturn {α : Type} {i : ι} {appCores : Nat} {x : Except String α} {next : α → Phase}
    (h : ∀ a, ∃ y r, (processes calls).Solo i appCores (next a) y (.returned r)) :
    ∃ y r, (processes calls).Solo i appCores (orReturn x next) y (.returned r) := by
  cases x with
  | error e => exact ⟨appCores, _, .refl⟩
  | ok a => exact h a

omit [DecidableEq ι] in
/-- One more step before. -/
theorem solo_step {i : ι} {x y : Nat} {phase phase' : Phase}
    (hstep : (calls i).step x phase = some (y, phase'))
    (h : ∃ z r, (processes calls).Solo i y phase' z (.returned r)) :
    ∃ z r, (processes calls).Solo i x phase z (.returned r) := by
  obtain ⟨z, r, hsolo⟩ := h
  exact ⟨z, r, .step hstep hsolo⟩

omit [DecidableEq ι] in
theorem solo_assigning (i : ι) (app : App) (map : ResourceCoreMap) (x : Nat)
    (todo tasks : List RticTask) :
    ∃ y r, (processes calls).Solo i x (.assigning app map tasks todo) y (.returned r) := by
  induction todo generalizing tasks with
  | nil => exact solo_step rfl ⟨x, _, .refl⟩
  | cons task todo ih => exact solo_step rfl (solo_orReturn fun task => ih (tasks ++ [task]))

omit [DecidableEq ι] in
theorem solo_parsing (i : ι) (x : Nat) (todo : List (ItemStruct × Nat)) (app : App) :
    ∃ y r, (processes calls).Solo i x (.parsing app todo) y (.returned r) := by
  induction todo generalizing app with
  | nil =>
    refine solo_step rfl (solo_step rfl (solo_orReturn fun map => ?_))
    exact solo_assigning i app map x app.tasks []
  | cons entry todo ih => exact solo_step rfl (solo_orReturn fun shared => ih _)

omit [DecidableEq ι] in
/-- An app that takes all steps returns. -/
theorem solo_called (i : ι) (x : Nat) :
    ∃ y r, (processes calls).Solo i x .called y (.returned r) := by
  cases hcores : parseCoresArg (calls i).params with
  | error e =>
    have hstep : (calls i).step x .called = some (x, .returned (.error e)) := by
      rw [Invocation.step, hcores]
    exact solo_step hstep ⟨x, _, .refl⟩
  | ok cores =>
    have hstep : (calls i).step x .called = some (cores, .stored) := by
      rw [Invocation.step, hcores]
    refine solo_step hstep (solo_step rfl (solo_orReturn fun tasks => ?_))
    exact solo_parsing i cores _ _

/-- No app is underway that could disagree. -/
theorem along_replicate {i : ι} {s : State ι} (n : Nat) (hs : ∀ j, j ≠ i → s.2 j = .called) :
    (machine calls).Along (StoresOwn calls) s (List.replicate n i) := by
  induction n generalizing s with
  | zero => trivial
  | succ n ih =>
    refine ⟨fun hcalled j hj => ?_, fun t ht => ih fun j hj => ?_⟩
    · by_cases hji : j = i
      · rw [hji, hcalled] at hj
        cases hj
      · rw [hs j hji] at hj
        cases hj
    · obtain ⟨x, phase, -, rfl⟩ := Processes.machine_step_eq_some.mp ht
      show Function.update s.2 i phase j = .called
      rw [Function.update_of_ne hj]
      exact hs j hj

theorem onTrack_init (i : ι) : OnTrack (calls i) ((machine calls).init.2 i) := onTrack_called

theorem countsAgree_init : CountsAgree calls (machine calls).init := by
  intro i h
  cases h

/-- **An app that takes all steps returns what comes of it alone.** -/
theorem exec_alone (calls : ι → Invocation) (i : ι) :
    ∃ n t, (machine calls).exec (machine calls).init (List.replicate n i) = some t ∧
      t.2 i = .returned (calls i).alone := by
  have hsolo : ∃ y r, (processes calls).Solo i 1 .called y (.returned r) := solo_called i 1
  obtain ⟨y, r, hsolo⟩ := hsolo
  have hexec : ∃ n, ∀ phases : ι → Phase, phases i = .called →
      (machine calls).exec (1, phases) (List.replicate n i) =
        some (y, Function.update phases i (.returned r)) := hsolo.exec
  obtain ⟨n, hn⟩ := hexec
  have hrun : (machine calls).exec (machine calls).init (List.replicate n i) =
      some (y, Function.update (fun _ => .called) i (.returned r)) := hn _ rfl
  have hfinds : (machine calls).Along (FindsOwn calls) (machine calls).init (List.replicate n i) :=
    along_findsOwn countsAgree_init (along_replicate n fun _ _ => rfl)
  have hreturned : Function.update (fun _ => Phase.called) i (.returned r) i = .returned r :=
    Function.update_self ..
  have htrack : OnTrack (calls i) (.returned r) :=
    hreturned ▸ along_onTrack onTrack_init hfinds hrun i
  exact ⟨n, _, hrun, hreturned.trans (congrArg Phase.returned htrack.alone)⟩

/-! ## Results -/

/--
**An app that finds counts of its own kind is not influenced.** Its result is the one that it has
alone.
-/
theorem interleaved_result (calls : ι → Invocation) {as : List ι} {s : State ι}
    (hrun : (machine calls).exec (machine calls).init as = some s)
    (hfinds : (machine calls).Along (FindsOwn calls) (machine calls).init as) (i : ι)
    (result : Except String App) (hresult : s.2 i = .returned result) :
    result = (calls i).alone ∧
      ∃ n t, (machine calls).exec (machine calls).init (List.replicate n i) = some t ∧
        t.2 i = .returned result := by
  have htrack := along_onTrack onTrack_init hfinds hrun i
  rw [hresult] at htrack
  have halone := htrack.alone
  obtain ⟨n, t, ht, hreturned⟩ := exec_alone calls i
  exact ⟨halone, n, t, ht, halone ▸ hreturned⟩

/-- `cores = 2` with a task on core 1, and an empty app of one core. -/
def twoApps : Bool → Invocation
  | false => {
    params := RticAttr.parseFromTokens [("cores", some (.int 2))] "app"
    items := [
      .strct (plainStruct "Shared" "shared" ["x"] [("core", some (.int 1))]),
      .strct (plainStruct "Tick" "task" [] [("shared", some (.array [some "x"]))])] }
  | true => { params := RticAttr.parseFromTokens [] "app", items := [] }

/-- The cores of the tasks. -/
def taskCores : Except String App → Option (List (Option Nat))
  | .ok app => some (app.tasks.map (·.core))
  | .error _ => none

def Phase.result? : Phase → Option (Except String App)
  | .returned result => some result
  | _ => none

theorem eq_returned {phase : Phase} {cores : List (Option Nat)}
    (h : (phase.result?.bind taskCores) = some cores) :
    ∃ result, phase = .returned result ∧ taskCores result = some cores := by
  cases phase with
  | returned result => exact ⟨result, rfl, h⟩
  | _ => cases h

theorem interleaved_result_two : ∃ s result,
    (machine twoApps).exec (machine twoApps).init
      [true, false, true, false, false, true, true, false, false, true, false, false] = some s ∧
    s.2 false = .returned result ∧ taskCores result = some [some 1] ∧
    result = (twoApps false).alone := by
  have h : ((machine twoApps).exec (machine twoApps).init
      [true, false, true, false, false, true, true, false, false, true, false, false]).map
      (fun s => (s.2 false).result?.bind taskCores) = some (some [some 1]) := by
    decide +kernel
  obtain ⟨s, hrun, hs⟩ := Option.map_eq_some_iff.mp h
  obtain ⟨result, hresult, hcores⟩ := eq_returned hs
  have halone := interleaved_result twoApps hrun (by decide +kernel) false result hresult
  exact ⟨s, result, hrun, hresult, hcores, halone.1⟩

/-- The empty app stores its count before the task of the other one is assigned, which is on core 1
when its app is alone. -/
theorem interleaved_differs : ∃ s result,
    (machine twoApps).exec (machine twoApps).init
      [false, false, false, true, false, false, false, false] = some s ∧
    s.2 false = .returned result ∧ taskCores result = some [some 0] ∧
    taskCores (twoApps false).alone = some [some 1] ∧ result ≠ (twoApps false).alone := by
  have h : ((machine twoApps).exec (machine twoApps).init
      [false, false, false, true, false, false, false, false]).map
      (fun s => (s.2 false).result?.bind taskCores) = some (some [some 0]) := by
    decide +kernel
  have halone : taskCores (twoApps false).alone = some [some 1] := by
    decide +kernel
  obtain ⟨s, hrun, hs⟩ := Option.map_eq_some_iff.mp h
  obtain ⟨result, hresult, hcores⟩ := eq_returned hs
  refine ⟨s, result, hrun, hresult, hcores, halone, fun heq => ?_⟩
  rw [heq, halone] at hcores
  exact absurd hcores (by decide)

end Rticx.AutoAssign
