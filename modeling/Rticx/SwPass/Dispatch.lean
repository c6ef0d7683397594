import Rticx.Lib.Fifo
import Rticx.Lib.Machine
import Rticx.SwPass.Spawn

/-!
# The dispatcher of a priority group

`generate_dispatcher_tasks` of `rticx-sw-pass/src/codegen/mod.rs`: a hardware task that takes
tasks out of the ready queue until it is empty, and for each takes an input out of its input queue
and calls `exec`. Spawns run in critical sections, so a spawn falls between two steps of the
dispatcher, wherever the spawning context preempts it, and `exec` itself may spawn.
-/

namespace Rticx.SwPass.Dispatch

open Lib Spsc

variable {G : Group} {I : Type} {hasCoreId : Bool}

/-! ## The dispatcher -/

/-- Where the dispatcher is. -/
inductive Dispatcher (G : Group) (I : Type) where
  | inactive
  /-- `while let Some(task) = ready_consumer.dequeue()` -/
  | loop
  /-- `let input = input_consumer.dequeue_unchecked()` -/
  | dequeued (t : G.Task)
  /-- `exec(input)`; the input is `none` if it was read from a slot without a value -/
  | exec (t : G.Task) (input : Option I)
  /-- inside `exec` -/
  | running (t : G.Task)
  /-- it took a ready entry out of a slot without a value -/
  | fault

/-- The task dequeued without its input. -/
def Dispatcher.hand : Dispatcher G I → Option G.Task
  | .dequeued t => some t
  | _ => none

/--
The statics, the dispatcher, and the history: the inputs accepted by spawns and those `exec` was
called with, in order, and whether a cross-core pend failed since the dispatcher was last entered.
-/
structure State (G : Group) (I : Type) where
  statics : Statics G I
  dispatcher : Dispatcher G I
  accepted : List (G.Task × I)
  executed : List (G.Task × Option I)
  unpended : Bool

/-- What may happen next. -/
inductive Action (G : Group) (I : Type) where
  /-- `__rticx_sw_system_initialized = true` -/
  | systemInitialized
  /-- the critical section of a spawn -/
  | spawn (t : G.Task) (input : I) (caller : Nat) (pendOk : Bool)
  /-- somebody pends the interrupt by hand -/
  | pend
  /-- the pending interrupt is taken -/
  | enter
  /-- a step of the dispatcher -/
  | dispatch

/-- One step of the dispatcher. -/
def dispatchStep (s : State G I) : Option (State G I) :=
  match s.dispatcher with
  | .inactive | .fault => none
  | .loop =>
    match s.statics.ready.dequeue with
    | none => some { s with dispatcher := .inactive }
    | some (some t, ready) =>
      some { s with dispatcher := .dequeued t, statics := { s.statics with ready := ready } }
    | some (none, ready) =>
      some { s with dispatcher := .fault, statics := { s.statics with ready := ready } }
  | .dequeued t =>
    let (input, q) := (s.statics.inputs t).dequeueUnchecked
    some { s with
      dispatcher := .exec t input
      statics := { s.statics with inputs := Function.update s.statics.inputs t q } }
  | .exec t input =>
    some { s with dispatcher := .running t, executed := s.executed ++ [(t, input)] }
  | .running _ => some { s with dispatcher := .loop }

/-- The priority group in the system. -/
def step (hasCoreId : Bool) (s : State G I) : Action G I → Option (State G I)
  | .systemInitialized => some { s with statics := { s.statics with systemInitialized := true } }
  | .spawn t input caller pendOk =>
    let (r, statics) := spawn (G.spawnApi hasCoreId t) t input caller pendOk s.statics
    some { s with
      statics := statics
      accepted := if rejects r then s.accepted else s.accepted ++ [(t, input)]
      unpended := s.unpended || (r matches .error none) }
  | .pend => some { s with statics := { s.statics with pending := true } }
  | .enter =>
    match s.dispatcher with
    | .inactive =>
      if s.statics.pending then
        some { s with
          dispatcher := .loop, statics := { s.statics with pending := false }, unpended := false }
      else none
    | _ => none
  | .dispatch => dispatchStep s

/-- The group from reset. -/
def machine (G : Group) (I : Type) (hasCoreId : Bool) : Machine (State G I) (Action G I) where
  init :=
    { statics := Statics.new, dispatcher := .inactive
      accepted := [], executed := [], unpended := false }
  step := step hasCoreId

/-! ## Open spawns -/

/-- **As many ready entries as inputs.** -/
theorem count_eq_length (opens : List (G.Task × I)) (t : G.Task) :
    (opens.map Prod.fst).count t = (inputsOf opens t).length := by
  induction opens with
  | nil => rfl
  | cons x opens ih =>
    obtain ⟨u, x⟩ := x
    by_cases hu : u = t
    · subst hu
      simp [inputsOf_cons_self, ih]
    · rw [inputsOf_cons_ne opens x (Ne.symm hu), List.map_cons, List.count_cons, ih]
      simp [hu]

/-- Where the open spawns are while the dispatcher is at `d`. -/
def Placed (d : Dispatcher G I) (b : Statics G I) (opens : List (G.Task × I)) : Prop :=
  match d with
  | .inactive | .loop | .running _ => b.Stores (opens.map Prod.fst) (inputsOf opens)
  | .dequeued t =>
    ∃ x rest, opens = (t, x) :: rest ∧ b.Stores (rest.map Prod.fst) (inputsOf opens)
  | .exec t input =>
    ∃ x rest, opens = (t, x) :: rest ∧ input = some x ∧
      b.Stores (rest.map Prod.fst) (inputsOf rest)
  | .fault => False

/-- The queues at any place of the dispatcher, and what one more stored spawn does to it. -/
theorem Placed.stores {d : Dispatcher G I} {b : Statics G I} {opens : List (G.Task × I)}
    (h : Placed d b opens) :
    ∃ tokens inputs, b.Stores tokens inputs ∧
      (∀ t, tokens.count t + (if d.hand = some t then 1 else 0) = (inputs t).length) ∧
      ∀ b' t x, Statics.Stores b' (tokens ++ [t]) (Function.update inputs t (inputs t ++ [x])) →
        Placed d b' (opens ++ [(t, x)]) := by
  cases d with
  | inactive | loop | running _ =>
    refine ⟨_, _, h, fun t => by simp [Dispatcher.hand, count_eq_length], fun b' t x hb => ?_⟩
    simpa [Placed, inputsOf_append] using hb
  | dequeued t =>
    obtain ⟨x, rest, rfl, hs⟩ := h
    refine ⟨_, _, hs, fun u => ?_, fun b' u y hb => ⟨x, rest ++ [(u, y)], rfl, ?_⟩⟩
    · rw [← count_eq_length, List.map_cons, List.count_cons]
      simp [Dispatcher.hand]
    · rw [inputsOf_append]
      simpa using hb
  | exec t input =>
    obtain ⟨x, rest, rfl, rfl, hs⟩ := h
    refine ⟨_, _, hs, fun u => by simp [Dispatcher.hand, count_eq_length],
      fun b' u y hb => ⟨x, rest ++ [(u, y)], rfl, rfl, ?_⟩⟩
    simpa [inputsOf_append] using hb
  | fault => exact h.elim

/-- The pending bit and the flag are not part of the queues. -/
theorem Placed.congr {d : Dispatcher G I} {b b' : Statics G I} {opens : List (G.Task × I)}
    (h : Placed d b opens) (hr : b'.ready = b.ready) (hi : b'.inputs = b.inputs) :
    Placed d b' opens := by
  have stores : ∀ {tokens inputs}, b.Stores tokens inputs → b'.Stores tokens inputs := by
    intro tokens inputs hs
    exact ⟨hr ▸ hs.ready, hi ▸ hs.inputs⟩
  cases d with
  | inactive | loop | running _ => exact stores h
  | dequeued t => obtain ⟨x, rest, ho, hs⟩ := h; exact ⟨x, rest, ho, stores hs⟩
  | exec t input => obtain ⟨x, rest, ho, hx, hs⟩ := h; exact ⟨x, rest, ho, hx, stores hs⟩
  | fault => exact h

/-! ## The invariant -/

/-- A call of `exec` with the input of a spawn. -/
def call (x : G.Task × I) : G.Task × Option I := (x.1, some x.2)

/-- Every accepted spawn was executed, in order, or is open, in order. -/
structure Inv (s : State G I) (opens : List (G.Task × I)) : Prop where
  account : Fifo.Account (s.accepted.map call) s.executed (opens.map call)
  placed : Placed s.dispatcher s.statics opens
  pends : opens ≠ [] → s.dispatcher = .inactive → s.statics.pending = true ∨ s.unpended = true

theorem inv_init : Inv (machine G I hasCoreId).init [] where
  account := Fifo.Account.nil
  placed := Statics.new_stores
  pends := fun h => (h rfl).elim

/-- A critical section of a spawn. -/
theorem inv_spawn {s s' : State G I} {opens : List (G.Task × I)} (h : Inv s opens) {t : G.Task}
    {input : I} {caller : Nat} {pendOk : Bool}
    (hs : step hasCoreId s (.spawn t input caller pendOk) = some s') :
    ∃ opens', Inv s' opens' := by
  obtain ⟨tokens, inputs, hst, hcount, hplaced⟩ := h.placed.stores
  rw [step] at hs
  obtain ⟨r, b', hr⟩ : ∃ r b', spawn (G.spawnApi hasCoreId t) t input caller pendOk s.statics =
    (r, b') := ⟨_, _, rfl⟩
  simp only [hr, Option.some.injEq] at hs
  subst hs
  have hle : ∀ u, tokens.count u ≤ (inputs u).length := fun u => by have := hcount u; omega
  rcases spawn_cases _ t input caller pendOk hst hle hr with
    ⟨rfl, rfl⟩ | ⟨hrej, _, hspawned, hpend⟩
  · exact ⟨opens, by simpa [rejects] using h.account, h.placed, by simpa using h.pends⟩
  · refine ⟨opens ++ [(t, input)], ?_, hplaced b' t input hspawned.stores, fun _ _ => ?_⟩
    · simpa [hrej] using h.account.push (call (t, input))
    · rcases hpend with ⟨rfl, hp⟩ | ⟨rfl, _, _⟩
      · left
        simp [hp, Group.spawnApi]
      · right
        simp

/-- The steps the dispatcher has to take until nothing is open. -/
def Dispatcher.remaining (d : Dispatcher G I) (opens : Nat) : Nat :=
  match d with
  | .inactive | .fault => 0
  | .loop => 4 * opens + 1
  | .dequeued _ => 4 * opens
  | .exec _ _ => 4 * opens - 1
  | .running _ => 4 * opens + 2

/-- A step of the dispatcher accepts nothing, and is one step less to take. -/
theorem inv_dispatchStep {s s' : State G I} {opens : List (G.Task × I)} (h : Inv s opens)
    (hs : dispatchStep s = some s') :
    ∃ opens', Inv s' opens' ∧ s'.accepted = s.accepted ∧
      (s'.dispatcher = .inactive → opens' = []) ∧
      s'.dispatcher.remaining opens'.length < s.dispatcher.remaining opens.length := by
  have hp := h.placed
  rw [dispatchStep] at hs
  cases hd : s.dispatcher with
  | inactive | fault => rw [hd] at hs; cases hs
  | loop =>
    rw [hd] at hs hp
    have hready : s.statics.ready.Holds (opens.map Prod.fst) := hp.ready
    cases ho : opens with
    | nil =>
      subst ho
      simp only [hready.dequeue_nil, Option.some.injEq] at hs
      subst hs
      exact ⟨[], ⟨h.account, hp, fun hne => (hne rfl).elim⟩, rfl, fun _ => rfl, Nat.zero_lt_one⟩
    | cons x rest =>
      obtain ⟨t, x⟩ := x
      subst ho
      simp only [hready.dequeue_cons, Option.some.injEq] at hs
      subst hs
      have hst : Statics.Stores { s.statics with ready := s.statics.ready.dequeueUnchecked.2 }
          (rest.map Prod.fst) (inputsOf ((t, x) :: rest)) :=
        ⟨hready.dequeueUnchecked.2, hp.inputs⟩
      exact ⟨(t, x) :: rest, ⟨h.account, ⟨x, rest, rfl, hst⟩, fun _ => nofun⟩, rfl,
        nofun, Nat.lt_succ_self _⟩
  | dequeued t =>
    rw [hd] at hs hp
    obtain ⟨x, rest, rfl, hst⟩ := hp
    have hin : (s.statics.inputs t).Holds (x :: inputsOf rest t) := by
      simpa [inputsOf_cons_self] using hst.inputs t
    simp only [Option.some.injEq] at hs
    subst hs
    refine ⟨(t, x) :: rest, ⟨h.account,
      ⟨x, rest, rfl, hin.dequeueUnchecked.1, hst.ready, fun u => ?_⟩, fun _ => nofun⟩,
      rfl, nofun, ?_⟩
    · by_cases hu : u = t
      · subst hu
        simpa using hin.dequeueUnchecked.2
      · simpa [hu, inputsOf_cons_ne rest x hu] using hst.inputs u
    · simp only [Dispatcher.remaining, List.length_cons]
      omega
  | exec t input =>
    rw [hd] at hs hp
    obtain ⟨x, rest, rfl, rfl, hst⟩ := hp
    simp only [Option.some.injEq] at hs
    subst hs
    refine ⟨rest, ⟨h.account.pop, hst, fun _ => nofun⟩, rfl, nofun, ?_⟩
    simp only [Dispatcher.remaining, List.length_cons]
    omega
  | running t =>
    rw [hd] at hs hp
    simp only [Option.some.injEq] at hs
    subst hs
    exact ⟨opens, ⟨h.account, hp, fun _ => nofun⟩, rfl, nofun,
      Nat.lt_succ_self _⟩

theorem inv_step {s s' : State G I} {a : Action G I} {opens : List (G.Task × I)}
    (h : Inv s opens) (hs : step hasCoreId s a = some s') : ∃ opens', Inv s' opens' := by
  cases a with
  | systemInitialized =>
    cases hs
    exact ⟨opens, h.account, h.placed.congr rfl rfl, h.pends⟩
  | pend =>
    cases hs
    exact ⟨opens, h.account, h.placed.congr rfl rfl, fun _ _ => Or.inl rfl⟩
  | spawn t input caller pendOk => exact inv_spawn h hs
  | dispatch =>
    obtain ⟨opens', hi, -⟩ := inv_dispatchStep h hs
    exact ⟨opens', hi⟩
  | enter =>
    rw [step] at hs
    split at hs
    next hd =>
      split at hs <;> cases hs
      have hp := h.placed
      rw [hd] at hp
      have hp : Placed .loop s.statics opens := hp
      exact ⟨opens, h.account, hp.congr rfl rfl, fun _ => nofun⟩
    · cases hs

theorem inv_reachable {s : State G I} (h : (machine G I hasCoreId).Reachable s) :
    ∃ opens, Inv s opens :=
  h.invariant (P := fun s => ∃ opens, Inv s opens) ⟨[], inv_init⟩
    fun _ _ _ _ ⟨_, hi⟩ hs => inv_step hi hs

/-! ## Draining -/

/-- The actions of the dispatcher itself. -/
def Action.ofDispatcher : Action G I → Bool
  | .enter | .dispatch => true
  | _ => false

/-- A run of the dispatcher without interference that leaves nothing open. -/
def Drains (hasCoreId : Bool) (s : State G I) : Prop :=
  ∃ as s', (∀ a ∈ as, Action.ofDispatcher a = true) ∧
    (machine G I hasCoreId).exec s as = some s' ∧ s'.dispatcher = .inactive ∧
    s'.accepted = s.accepted ∧ s'.executed = s.accepted.map call

/-- One more step before a draining run. -/
theorem Drains.cons {s m : State G I} {a : Action G I} (ha : a.ofDispatcher = true)
    (hs : step hasCoreId s a = some m) (hacc : m.accepted = s.accepted)
    (h : Drains hasCoreId m) : Drains hasCoreId s := by
  obtain ⟨as, s', has, hex, hd, hacc', hexec⟩ := h
  refine ⟨a :: as, s', ?_, ?_, hd, hacc'.trans hacc, hacc ▸ hexec⟩
  · simpa [ha] using has
  · exact (Machine.exec_cons_eq_some _).mpr ⟨m, hs, hex⟩

/-- With something to do, the dispatcher can take its next step. -/
theorem Inv.can_dispatch {s : State G I} {opens : List (G.Task × I)} (h : Inv s opens)
    (hd : s.dispatcher ≠ .inactive) : ∃ m, dispatchStep s = some m := by
  have hp := h.placed
  rw [dispatchStep]
  cases hd' : s.dispatcher with
  | inactive => exact (hd hd').elim
  | fault => rw [hd'] at hp; exact hp.elim
  | loop =>
    rcases hq : s.statics.ready.dequeue with - | ⟨- | t, ready⟩
    all_goals exact ⟨_, rfl⟩
  | dequeued t | exec t input | running t => exact ⟨_, rfl⟩

/-- **An active dispatcher drains the group**, by induction on the steps it has to take. -/
theorem Inv.drains {s : State G I} {opens : List (G.Task × I)} (h : Inv s opens)
    (hd : s.dispatcher ≠ .inactive) : Drains hasCoreId s := by
  induction hn : s.dispatcher.remaining opens.length using Nat.strong_induction_on
    generalizing s opens with
  | _ n ih =>
    obtain ⟨m, hm⟩ := h.can_dispatch hd
    obtain ⟨opens', hi, hacc, hnil, hlt⟩ := inv_dispatchStep h hm
    refine Drains.cons (a := .dispatch) rfl hm hacc ?_
    by_cases hmd : m.dispatcher = .inactive
    · obtain rfl := hnil hmd
      exact ⟨[], m, by simp, rfl, hmd, rfl, hi.account.all_delivered⟩
    · exact ih _ (hn ▸ hlt) hi hmd rfl

/-- So does a dispatcher whose interrupt is pending. -/
theorem Inv.drains_of_pending {s : State G I} {opens : List (G.Task × I)} (h : Inv s opens)
    (hp : s.statics.pending = true) : Drains hasCoreId s := by
  by_cases hd : s.dispatcher = .inactive
  · have hs : step hasCoreId s .enter = some
        { s with
          dispatcher := .loop, statics := { s.statics with pending := false }, unpended := false } := by
      simp [step, hd, hp]
    obtain ⟨opens', hi⟩ := inv_step h hs
    exact Drains.cons rfl hs rfl (hi.drains (by simp))
  · exact h.drains hd

/-! ## Spawns in every interleaving -/

/--
**Dispatch conserves spawns.** In every state of every interleaving of spawns with the steps of
the dispatcher:

* each task has as many entries, in the ready queue or in the dispatcher's hand, as inputs;
* an input that finds room finds the ready queue not full, a task dequeued finds its input queue
  not empty, and no ready entry is read from an empty slot;
* the calls of `exec` are, in order, a prefix of the accepted spawns of the whole group, and the
  dispatcher left alone completes them; only a failed cross-core pend leaves a spawn without an
  active dispatcher or a pending interrupt;
* a spawn that hands its input back changes nothing.
-/
theorem dispatch_conserves_spawns {s : State G I} (h : (machine G I hasCoreId).Reachable s) :
    (∀ t, s.statics.ready.contents.count t + (if s.dispatcher.hand = some t then 1 else 0) =
      (s.statics.inputs t).contents.length) ∧
    (∀ t x q, (s.statics.inputs t).enqueue x = .ok q → s.statics.ready.isFull = false) ∧
    (∀ t, s.dispatcher = .dequeued t → (s.statics.inputs t).isEmpty = false) ∧
    s.dispatcher ≠ .fault ∧
    s.executed <+: s.accepted.map call ∧
    (s.dispatcher ≠ .inactive ∨ s.statics.pending = true → Drains hasCoreId s) ∧
    (s.executed ≠ s.accepted.map call →
      s.dispatcher ≠ .inactive ∨ s.statics.pending = true ∨ s.unpended = true) ∧
    (∀ t input caller pendOk,
      rejects (spawn (G.spawnApi hasCoreId t) t input caller pendOk s.statics).1 = true →
        spawn (G.spawnApi hasCoreId t) t input caller pendOk s.statics =
          (.error (some input), s.statics)) := by
  obtain ⟨opens, hi⟩ := inv_reachable h
  obtain ⟨tokens, inputs, hst, hcount, -⟩ := hi.placed.stores
  have hle : ∀ u, tokens.count u ≤ (inputs u).length := fun u => by have := hcount u; omega
  refine ⟨?_, ?_, ?_, ?_, hi.account.delivered_prefix, ?_, ?_, ?_⟩
  · intro t
    rw [hst.ready.contents, (hst.inputs t).contents]
    exact hcount t
  · intro t x q hq
    exact hst.ready.isFull_false (hst.ready_room hle ((hst.inputs t).enqueue_eq_ok hq).1)
  · intro t hd
    refine (hst.inputs t).isEmpty_false fun hnil => ?_
    have := hcount t
    simp [hd, hnil, Dispatcher.hand] at this
  · intro hd
    have hp := hi.placed
    rw [hd] at hp
    exact hp
  · rintro (hd | hp)
    · exact hi.drains hd
    · exact hi.drains_of_pending hp
  · intro hne
    by_cases hd : s.dispatcher = .inactive
    · refine Or.inr (hi.pends ?_ hd)
      rintro rfl
      exact hne hi.account.all_delivered
    · exact Or.inl hd
  · intro t input caller pendOk hrej
    obtain ⟨r, b', hsp⟩ : ∃ r b', spawn (G.spawnApi hasCoreId t) t input caller pendOk s.statics =
      (r, b') := ⟨_, _, rfl⟩
    rw [hsp] at hrej ⊢
    rcases spawn_cases _ t input caller pendOk hst hle hsp with ⟨rfl, rfl⟩ | ⟨hr, -⟩
    · rfl
    · rw [hr] at hrej
      cases hrej

/-- A group of two tasks on core 0, the first of capacity 2. -/
def twoTasks : Group where
  core := 0
  tasks := [⟨"Tick", 0, 2⟩, ⟨"Worker", 0, 1⟩]
  capacity_pos := by decide

def tick : twoTasks.Task := ⟨0, by decide⟩

def worker : twoTasks.Task := ⟨1, by decide⟩

/-- Spawns before and while the dispatcher runs; the third spawn of the first task is too much. -/
def preempted : List (Action twoTasks Nat) :=
  [.systemInitialized, .spawn tick 10 0 true, .spawn tick 11 0 true, .spawn tick 12 0 true,
    .enter, .dispatch, .spawn worker 20 0 true, .dispatch, .dispatch, .dispatch]

theorem dispatch_conserves_spawns_run :
    ∃ s, (machine twoTasks Nat true).exec (machine twoTasks Nat true).init preempted = some s ∧
      s.accepted = [(tick, 10), (tick, 11), (worker, 20)] ∧ s.executed = [(tick, some 10)] ∧
      s.executed <+: s.accepted.map call := by
  refine ⟨_, rfl, rfl, rfl, ?_⟩
  have h : (machine twoTasks Nat true).Reachable _ :=
    Machine.reachable_iff_exec.mpr ⟨preempted, rfl⟩
  exact (dispatch_conserves_spawns h).2.2.2.2.1

end Rticx.SwPass.Dispatch
