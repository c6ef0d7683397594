import Rticx.SwPass.Dispatch
import Rticx.Spsc.Calls

/-!
# Spawn and dispatch, access by access

`Dispatch` lets a spawn and each call of a queue happen at once. The critical section of a spawn
only keeps other spawns away: the dispatcher, or the other core, goes on between any two of its
accesses. Here every access of `generate_spawn_api` and `generate_dispatcher_tasks` is a step of its
own, and the queues are those of `Spsc.Concurrent`.

* `simulates`: each access is invisible in `Dispatch`, or one step of it. A spawn happens when
  `enqueue_unchecked` stores the index of the ready queue, a `dequeue` when it stores its index, and
  one that finds nothing when it loads the other.
* `exec_length_le`, `exists_step`: the accesses of the dispatcher come to an end.
-/

namespace Rticx.SwPass.Accesses

open Lib Spsc
open Concurrent (Inv)

variable {G : Group} {I : Type} {hasCoreId : Bool}

/-! ## The two sides -/

/-- Where the spawn that runs its critical section is. -/
inductive Spawner (G : Group) (I : Type) where
  | idle
  /-- before `if unsafe { !__rticx_sw_system_initialized }` -/
  | loadFlag (t : G.Task) (input : I) (caller : Nat) (pendOk : Bool)
  /-- inside `inputs_producer.enqueue(input)` -/
  | enqueue (t : G.Task) (input : I) (caller : Nat) (pendOk : Bool)
  /-- inside `ready_producer.enqueue_unchecked(t)` -/
  | enqueueReady (t : G.Task) (input : I) (caller : Nat) (pendOk : Bool)
  /-- before the interrupt-pending statement -/
  | pend (t : G.Task) (pendOk : Bool)

/-- Where the dispatcher is. -/
inductive Dispatcher (G : Group) (I : Type) where
  | inactive
  /-- inside `ready_consumer.dequeue()` -/
  | dequeue
  /-- inside `input_consumer.dequeue_unchecked()` -/
  | dequeueInput (t : G.Task)
  /-- `exec(input)`; the input is `none` if it was read from a slot without a value -/
  | exec (t : G.Task) (input : Option I)
  /-- inside `exec` -/
  | running (t : G.Task)
  /-- it took a ready entry out of a slot without a value -/
  | fault

/-- The statics, the two sides, and the history as in `Dispatch.State`. -/
structure State (G : Group) (I : Type) where
  ready : Concurrent.State G.Task G.readyQueueSize
  inputs : (t : G.Task) → Concurrent.State I (G.queueBufferSize t)
  systemInitialized : Bool
  pending : Bool
  spawner : Spawner G I
  dispatcher : Dispatcher G I
  accepted : List (G.Task × I)
  executed : List (G.Task × Option I)
  unpended : Bool

/-- Replace an input queue. -/
def State.setInputs (s : State G I) (t : G.Task)
    (q : Concurrent.State I (G.queueBufferSize t)) : State G I :=
  { s with inputs := Function.update s.inputs t q }

/-- What may happen next. -/
inductive Action (G : Group) (I : Type) where
  /-- `__rticx_sw_system_initialized = true` -/
  | systemInitialized
  /-- a spawn begins, with the core check -/
  | spawn (t : G.Task) (input : I) (caller : Nat) (pendOk : Bool)
  /-- the next access of the spawn -/
  | spawner
  /-- somebody pends the interrupt by hand -/
  | pend
  /-- the pending interrupt is taken -/
  | enter
  /-- the next access of the dispatcher -/
  | dispatch

/-- The call of `enqueue` on the input queue has returned. -/
def State.enqueued (s : State G I) (t : G.Task) (input : I) (caller : Nat) (pendOk : Bool) :
    Option Bool → State G I
  | none => s
  | some true =>
    { s with
      spawner := .enqueueReady t input caller pendOk
      ready := { s.ready with producer := .loadWriteUnchecked t } }
  | some false => { s with spawner := .idle }

/-- The interrupt-pending statement. -/
def State.pendStmt (s : State G I) (pendOk : Bool) : Option PendStmt → State G I
  | none => { s with spawner := .idle }
  | some .coreLocal => { s with spawner := .idle, pending := true }
  | some .crossCore =>
    if pendOk then { s with spawner := .idle, pending := true }
    else { s with spawner := .idle, unpended := true }

/-- The next access of the spawn. -/
def spawnerStep (hasCoreId : Bool) (s : State G I) : Option (State G I) :=
  match s.spawner with
  | .idle => none
  | .loadFlag t input caller pendOk =>
    if s.systemInitialized then
      some { s.setInputs t { s.inputs t with producer := .loadWrite input } with
        spawner := .enqueue t input caller pendOk }
    else some { s with spawner := .idle }
  | .enqueue t input caller pendOk =>
    (Concurrent.producerStep (s.inputs t)).map fun q =>
      (s.setInputs t q).enqueued t input caller pendOk ((s.inputs t).producer.returns q.producer)
  | .enqueueReady t input _ pendOk =>
    (Concurrent.producerStep s.ready).map fun q =>
      match s.ready.producer.returns q.producer with
      | none => { s with ready := q }
      | some _ =>
        { s with ready := q, spawner := .pend t pendOk, accepted := s.accepted ++ [(t, input)] }
  | .pend t pendOk => some (s.pendStmt pendOk (G.spawnApi hasCoreId t).pendStmt)

/-- The call of `dequeue` on the ready queue has returned. -/
def State.dequeued (s : State G I) : Option (Option (Option G.Task)) → State G I
  | none => s
  | some none => { s with dispatcher := .inactive }
  | some (some none) => { s with dispatcher := .fault }
  | some (some (some t)) =>
    { s.setInputs t { s.inputs t with consumer := .loadReadUnchecked } with
      dispatcher := .dequeueInput t }

/-- The call of `dequeue` on the ready queue begins. -/
def State.loop (s : State G I) : State G I :=
  { s with dispatcher := .dequeue, ready := { s.ready with consumer := .loadWrite } }

/-- The next access of the dispatcher. -/
def dispatchStep (s : State G I) : Option (State G I) :=
  match s.dispatcher with
  | .inactive | .fault => none
  | .dequeue =>
    (Concurrent.consumerStep s.ready).map fun q =>
      { s with ready := q }.dequeued (s.ready.consumer.returns q.consumer)
  | .dequeueInput t =>
    (Concurrent.consumerStep (s.inputs t)).map fun q =>
      match (s.inputs t).consumer.returns q.consumer with
      | none => s.setInputs t q
      | some v => { s.setInputs t q with dispatcher := .exec t v.join }
  | .exec t input =>
    some { s with dispatcher := .running t, executed := s.executed ++ [(t, input)] }
  | .running _ => some s.loop

/-- The priority group in the system. -/
def step (hasCoreId : Bool) (s : State G I) : Action G I → Option (State G I)
  | .systemInitialized => some { s with systemInitialized := true }
  | .spawn t input caller pendOk =>
    match s.spawner with
    | .idle =>
      if (G.spawnApi hasCoreId t).coreCheck.any (caller != ·) then some s
      else some { s with spawner := .loadFlag t input caller pendOk }
    | _ => none
  | .spawner => spawnerStep hasCoreId s
  | .pend => some { s with pending := true }
  | .enter =>
    match s.dispatcher with
    | .inactive =>
      if s.pending then some { s.loop with pending := false, unpended := false } else none
    | _ => none
  | .dispatch => dispatchStep s

/-- The group from reset. -/
def machine (G : Group) (I : Type) (hasCoreId : Bool) : Machine (State G I) (Action G I) where
  init :=
    { ready := (Concurrent.machine _ _).init
      inputs := fun _ => (Concurrent.machine _ _).init
      systemInitialized := false, pending := false, spawner := .idle, dispatcher := .inactive
      accepted := [], executed := [], unpended := false }
  step := step hasCoreId

/-! ## What belongs together -/

/-- The input in the hands of `enqueue`. -/
def Spawner.storing (t : G.Task) : Spawner G I → Option I
  | .enqueue u input _ _ => if u = t then some input else none
  | _ => none

/-- The entry in the hands of `enqueue_unchecked`. -/
def Spawner.entry : Spawner G I → Option G.Task
  | .enqueueReady t _ _ _ => some t
  | _ => none

/-- The input that is stored and has no entry yet. -/
def Spawner.unready (t : G.Task) : Spawner G I → List I
  | .enqueueReady u input _ _ => if u = t then [input] else []
  | _ => []

/-- The checks that the spawn has passed. -/
def Spawner.Passed (hasCoreId systemInitialized : Bool) : Spawner G I → Prop
  | .idle | .pend _ _ => True
  | .loadFlag t _ caller _ => (G.spawnApi hasCoreId t).coreCheck.any (caller != ·) = false
  | .enqueue t _ caller _ | .enqueueReady t _ caller _ =>
    (G.spawnApi hasCoreId t).coreCheck.any (caller != ·) = false ∧ systemInitialized = true

/-- The spawn is about to pend the interrupt. -/
def Spawner.pends (hasCoreId : Bool) : Spawner G I → Bool
  | .pend t pendOk => (G.spawnApi hasCoreId t).pendStmt != some .crossCore || pendOk
  | _ => false

/-- The spawn is about to fail to pend it. -/
def Spawner.fails (hasCoreId : Bool) : Spawner G I → Bool
  | .pend t pendOk => (G.spawnApi hasCoreId t).pendStmt == some .crossCore && !pendOk
  | _ => false

/-- The dispatcher is in a call on the input queue of the task. -/
def Dispatcher.Takes (t : G.Task) (d : Dispatcher G I) : Prop := d = .dequeueInput t

/-- Where the consumer of the ready queue is, and where `Dispatch` has the dispatcher. -/
def AtReady (q : Concurrent.State G.Task G.readyQueueSize) (cd : Dispatch.Dispatcher G I) :
    Dispatcher G I → Prop
  | .inactive => q.consumer = .idle ∧ cd = .inactive
  | .dequeue => q.consumer ≠ .idle ∧ (q.FoundNothing → cd = .inactive) ∧
    (¬ q.FoundNothing → cd = .loop)
  | .dequeueInput t => q.consumer = .idle ∧ cd = .dequeued t
  | .exec t input => q.consumer = .idle ∧ cd = .exec t input
  | .running t => q.consumer = .idle ∧ cd = .running t
  | .fault => False

/-- The ready queue, with the one of `Dispatch`. -/
structure ReadyPlaced (sp : Spawner G I) (d : Dispatcher G I) (cd : Dispatch.Dispatcher G I)
    (cq : Queue G.Task G.readyQueueSize) (q : Concurrent.State G.Task G.readyQueueSize) :
    Prop where
  reachable : (Concurrent.machine _ _).Reachable q
  producer : q.producer.data = sp.entry
  tests : q.producer.tests = false
  consumer : AtReady q cd d
  holds : cq.Holds q.outstanding

/-- An input queue, with the one of `Dispatch`. -/
structure InputPlaced (sp : Spawner G I) (d : Dispatcher G I) (t : G.Task)
    (cq : Queue I (G.queueBufferSize t)) (q : Concurrent.State I (G.queueBufferSize t)) :
    Prop where
  reachable : (Concurrent.machine _ _).Reachable q
  producer : q.producer.data = sp.storing t
  tests : q.consumer.tests = false
  consumer : q.consumer = .idle ↔ ¬ d.Takes t
  holds : ∃ l, cq.Holds l ∧ q.outstanding = l ++ sp.unready t

/-- The states of both levels that belong together. -/
structure Refines (hasCoreId : Bool) (s : State G I) (c : Dispatch.State G I) : Prop where
  ready : ReadyPlaced s.spawner s.dispatcher c.dispatcher c.statics.ready s.ready
  inputs : ∀ t, InputPlaced s.spawner s.dispatcher t (c.statics.inputs t) (s.inputs t)
  passed : s.spawner.Passed hasCoreId s.systemInitialized
  systemInitialized : c.statics.systemInitialized = s.systemInitialized
  pending : s.pending = true → c.statics.pending = true
  pends : c.statics.pending = true → s.pending = true ∨ s.spawner.pends hasCoreId = true
  unpends : c.unpended = true → s.unpended = true ∨ s.spawner.fails hasCoreId = true
  accepted : c.accepted = s.accepted
  executed : c.executed = s.executed

/-! ## The queues -/

section

variable {sp sp' : Spawner G I} {d d' : Dispatcher G I} {cd cd' : Dispatch.Dispatcher G I}
  {t : G.Task} {cq : Queue G.Task G.readyQueueSize}
  {q q' : Concurrent.State G.Task G.readyQueueSize} {ci : Queue I (G.queueBufferSize t)}
  {i i' : Concurrent.State I (G.queueBufferSize t)}

theorem ReadyPlaced.inv (h : ReadyPlaced sp d cd cq q) : Inv q :=
  Concurrent.inv_of_reachable (Nat.succ_pos _) h.reachable

theorem InputPlaced.inv (h : InputPlaced sp d t ci i) : Inv i :=
  Concurrent.inv_of_reachable (Nat.succ_pos _) h.reachable

/-- A queue sees of the two sides only what they do to it. -/
theorem InputPlaced.congr (h : InputPlaced sp d t ci i) (hstoring : sp'.storing t = sp.storing t)
    (hunready : sp'.unready t = sp.unready t) (htakes : d'.Takes t ↔ d.Takes t) :
    InputPlaced sp' d' t ci i where
  reachable := h.reachable
  producer := hstoring ▸ h.producer
  tests := h.tests
  consumer := by rw [htakes, h.consumer]
  holds := hunready ▸ h.holds

theorem ReadyPlaced.congr (h : ReadyPlaced sp d cd cq q) (hentry : sp'.entry = sp.entry) :
    ReadyPlaced sp' d cd cq q :=
  ⟨h.reachable, hentry ▸ h.producer, h.tests, h.consumer, h.holds⟩

/-- The input queue of a task of which no spawn stores an input takes the next one. -/
theorem InputPlaced.enqueue (h : InputPlaced sp d t ci i) (hnone : sp.storing t = none)
    (hunready : sp.unready t = []) (input : I) (caller : Nat) (pendOk : Bool) :
    InputPlaced (.enqueue t input caller pendOk) d t ci { i with producer := .loadWrite input } where
  reachable := Concurrent.reachable_step h.reachable (Concurrent.step_enqueue input
    (Concurrent.Producer.data_eq_none.mp (h.producer.trans hnone)))
  producer := by simp [Concurrent.Producer.data, Spawner.storing]
  tests := h.tests
  consumer := h.consumer
  holds := by
    obtain ⟨l, hl, hout⟩ := h.holds
    refine ⟨l, hl, hout.trans ?_⟩
    rw [hunready]
    simp [Spawner.unready]

/-- The ready queue takes an entry where it has room for one. -/
theorem ReadyPlaced.enqueue (h : ReadyPlaced sp d cd cq q) (hnone : sp.entry = none)
    (hroom : q.outstanding.length + 1 < G.readyQueueSize) (t : G.Task) (input : I) (caller : Nat)
    (pendOk : Bool) :
    ReadyPlaced (.enqueueReady t input caller pendOk) d cd cq
      { q with producer := .loadWriteUnchecked t } where
  reachable := Concurrent.reachable_step h.reachable (Concurrent.step_enqueueUnchecked t
    (Concurrent.Producer.data_eq_none.mp (h.producer.trans hnone)) (h.inv.holds.isFull_false hroom))
  producer := by simp [Concurrent.Producer.data, Spawner.entry]
  tests := by simp [Concurrent.Producer.tests]
  consumer := h.consumer
  holds := h.holds

/-- An input queue that holds an input gives it to the dispatcher. -/
theorem InputPlaced.dequeue (h : InputPlaced sp d t ci i) (htakes : ¬ d.Takes t)
    (hne : i.outstanding ≠ []) :
    InputPlaced sp (.dequeueInput t) t ci { i with consumer := .loadReadUnchecked } where
  reachable := Concurrent.reachable_step h.reachable (Concurrent.step_dequeueUnchecked (h.consumer.mpr htakes)
    (h.inv.holds.isEmpty_false hne))
  producer := h.producer
  tests := by simp [Concurrent.Consumer.tests]
  consumer := by simp [Dispatcher.Takes]
  holds := h.holds

/-- The dispatcher looks at the ready queue once more. -/
theorem ReadyPlaced.loop (h : ReadyPlaced sp d cd cq q) (hidle : q.consumer = .idle) :
    ReadyPlaced sp .dequeue .loop cq { q with consumer := .loadWrite } where
  reachable := Concurrent.reachable_step h.reachable (Concurrent.step_dequeue hidle)
  producer := h.producer
  tests := h.tests
  consumer := by simp [AtReady, Concurrent.State.FoundNothing]
  holds := h.holds

/-- An access of `enqueue` on the input queue, seen by the spawn. -/
theorem InputPlaced.enqueueing {input : I} {caller : Nat} {pendOk : Bool}
    (h : InputPlaced (.enqueue t input caller pendOk) d t ci i)
    (hs : Concurrent.producerStep i = some i') :
    (i.producer.returns i'.producer = none ∧
      InputPlaced (.enqueue t input caller pendOk) d t ci i') ∨
    (i.producer.returns i'.producer = some true ∧
      (∃ l, ci.Holds l ∧ l.length + 1 < G.queueBufferSize t) ∧
      InputPlaced (.enqueueReady t input caller pendOk) d t ci i') ∨
    (i.producer.returns i'.producer = some false ∧ InputPlaced .idle d t ci i') := by
  have hreachable := Concurrent.reachable_step (a := .producer) h.reachable hs
  obtain ⟨hconsumer, -, hcases⟩ := Concurrent.producer_cases h.inv hs
  have hdata : i.producer.data = some input := by simpa [Spawner.storing] using h.producer
  have htests : i'.consumer.tests = false := hconsumer ▸ h.tests
  have hidle : i'.consumer = .idle ↔ ¬ d.Takes t := hconsumer ▸ h.consumer
  obtain ⟨l, hl, hout⟩ := h.holds
  have hout : i.outstanding = l := by simpa [Spawner.unready] using hout
  cases hcases with
  | goes hreturns hdata' _ hout' =>
    refine Or.inl ⟨hreturns, hreachable, hdata'.trans h.producer, htests, hidle, l, hl, ?_⟩
    rw [hout', hout]
    simp [Spawner.unready]
  | stored data hstored hreturns hproducer hout' =>
    obtain rfl : input = data := Option.some.inj (hdata.symm.trans hstored)
    refine Or.inr (Or.inl ⟨hreturns, ⟨l, hl, ?_⟩, hreachable, ?_, htests, hidle, l, hl, ?_⟩)
    · have hinv : Inv i' := Concurrent.inv_of_reachable (Nat.succ_pos _) hreachable
      have hroom := hinv.holds.room
      rw [hout', hout, List.length_append] at hroom
      exact hroom
    · simp [hproducer, Concurrent.Producer.data, Spawner.storing]
    · rw [hout', hout]
      simp [Spawner.unready]
  | full _ hreturns hproducer hout' _ =>
    refine Or.inr (Or.inr ⟨hreturns, hreachable, ?_, htests, hidle, l, hl, ?_⟩)
    · simp [hproducer, Concurrent.Producer.data, Spawner.storing]
    · rw [hout', hout]
      simp [Spawner.unready]

/-- What the dispatcher has in hand does not change with the producer of the ready queue. -/
theorem AtReady.congr (h : AtReady q cd d) (hconsumer : q'.consumer = q.consumer)
    (hseen : q'.seen = q.seen) : AtReady q' cd d := by
  cases d with
  | dequeue =>
    obtain ⟨hne, hfound, hloop⟩ := h
    rw [← Concurrent.foundNothing_congr hconsumer hseen] at hfound hloop
    exact ⟨hconsumer ▸ hne, hfound, hloop⟩
  | inactive | dequeueInput t | exec t input | running t => exact ⟨hconsumer ▸ h.1, h.2⟩
  | fault => exact h

/-- An access of `enqueue_unchecked` on the ready queue, seen by the spawn. -/
theorem ReadyPlaced.enqueueing {input : I} {caller : Nat} {pendOk : Bool}
    (h : ReadyPlaced (.enqueueReady t input caller pendOk) d cd cq q)
    (hs : Concurrent.producerStep q = some q') :
    (q.producer.returns q'.producer = none ∧
      ReadyPlaced (.enqueueReady t input caller pendOk) d cd cq q') ∨
    (q.producer.returns q'.producer = some true ∧
      ∀ cq', Queue.Holds cq' (q.outstanding ++ [t]) → ReadyPlaced (.pend t pendOk) d cd cq' q') := by
  have hreachable := Concurrent.reachable_step (a := .producer) h.reachable hs
  obtain ⟨hconsumer, hseen, hcases⟩ := Concurrent.producer_cases h.inv hs
  have hready : AtReady q' cd d := h.consumer.congr hconsumer hseen
  cases hcases with
  | goes hreturns hdata htests hout =>
    exact Or.inl ⟨hreturns, hreachable, hdata.trans h.producer, htests h.tests, hready,
      hout ▸ h.holds⟩
  | stored data hdata hreturns hproducer hout =>
    obtain rfl : t = data := Option.some.inj (h.producer.symm.trans hdata)
    refine Or.inr ⟨hreturns, fun cq' hcq' => ⟨hreachable, ?_, ?_, hready, hout ▸ hcq'⟩⟩
    · simp [hproducer, Concurrent.Producer.data, Spawner.entry]
    · simp [hproducer, Concurrent.Producer.tests]
  | full htests _ _ _ _ =>
    rw [h.tests] at htests
    cases htests

/-- An access of `dequeue` on the ready queue, seen by the dispatcher. -/
theorem ReadyPlaced.dequeueing (h : ReadyPlaced sp .dequeue cd cq q)
    (hs : Concurrent.consumerStep q = some q') :
    (q.consumer.returns q'.consumer = none ∧ (ReadyPlaced sp .dequeue cd cq q' ∨
      cd = .loop ∧ cq.Holds [] ∧ ReadyPlaced sp .dequeue .inactive cq q')) ∨
    (q.consumer.returns q'.consumer = some none ∧ cd = .inactive ∧
      ReadyPlaced sp .inactive .inactive cq q') ∨
    (∃ t rest, q.consumer.returns q'.consumer = some (some (some t)) ∧ cd = .loop ∧
      cq.Holds (t :: rest) ∧ ∀ cq', Queue.Holds cq' rest →
        ReadyPlaced sp (.dequeueInput t) (.dequeued t) cq' q') := by
  have hreachable := Concurrent.reachable_step (a := .consumer) h.reachable hs
  obtain ⟨hproducer, hcases⟩ := Concurrent.consumer_cases h.inv hs
  have hdata : q'.producer.data = sp.entry := hproducer ▸ h.producer
  have htests : q'.producer.tests = false := hproducer ▸ h.tests
  obtain ⟨-, hfound, hloop⟩ := h.consumer
  have hcq := h.holds
  cases hcases with
  | goes hreturns hne _ hout hnot hiff =>
    refine Or.inl ⟨hreturns, ?_⟩
    by_cases hempty : q.consumer = .loadWrite ∧ q.outstanding = []
    · -- the load that finds nothing
      rw [hempty.2] at hcq
      refine Or.inr ⟨hloop hnot, hcq, hreachable, hdata, htests, ⟨hne, fun _ => rfl, ?_⟩, ?_⟩
      · exact fun hnot => absurd (hiff.mpr hempty) hnot
      · rw [hout, hempty.2]
        exact hcq
    · refine Or.inl ⟨hreachable, hdata, htests, ⟨hne, ?_, fun _ => hloop hnot⟩, hout ▸ hcq⟩
      exact fun hfound => absurd (hiff.mp hfound) hempty
  | taken t htests' hreturns hidle hout =>
    have hnot : ¬ q.FoundNothing := fun hfound => by
      rw [hfound.1] at htests'
      cases htests'
    refine Or.inr (Or.inr ⟨t, q'.outstanding, hreturns, hloop hnot, hout ▸ hcq, fun cq' hcq' => ?_⟩)
    exact ⟨hreachable, hdata, htests, ⟨hidle, rfl⟩, hcq'⟩
  | empty _ hreturns hidle hout hnothing =>
    exact Or.inr (Or.inl ⟨hreturns, hfound hnothing, hreachable, hdata, htests, ⟨hidle, rfl⟩,
      hout ▸ hcq⟩)

/-- An access of `dequeue_unchecked` on an input queue, seen by the dispatcher. -/
theorem InputPlaced.dequeueing (h : InputPlaced sp (.dequeueInput t) t ci i)
    (hunready : ∀ l, ci.Holds l → l ≠ []) (hs : Concurrent.consumerStep i = some i') :
    (i.consumer.returns i'.consumer = none ∧ InputPlaced sp (.dequeueInput t) t ci i') ∨
    (∃ x rest, i.consumer.returns i'.consumer = some (some (some x)) ∧ ci.Holds (x :: rest) ∧
      ∀ ci' d', Queue.Holds ci' rest → ¬ Dispatcher.Takes t d' → InputPlaced sp d' t ci' i') := by
  have hreachable := Concurrent.reachable_step (a := .consumer) h.reachable hs
  obtain ⟨hproducer, hcases⟩ := Concurrent.consumer_cases h.inv hs
  have hdata : i'.producer.data = sp.storing t := hproducer ▸ h.producer
  obtain ⟨l, hl, hl'⟩ := h.holds
  cases hcases with
  | goes hreturns hne htests hout _ _ =>
    refine Or.inl ⟨hreturns, hreachable, hdata, htests h.tests, ?_, l, hl, hout ▸ hl'⟩
    simpa [Dispatcher.Takes] using hne
  | taken x _ hreturns hidle hout =>
    obtain ⟨y, rest, rfl⟩ := List.exists_cons_of_ne_nil (hunready l hl)
    rw [hl', List.cons_append, List.cons.injEq] at hout
    obtain ⟨rfl, hout⟩ := hout
    refine Or.inr ⟨y, rest, hreturns, hl, fun ci' d' hci' hd' => ?_⟩
    refine ⟨hreachable, hdata, ?_, ?_, rest, hci', hout.symm⟩
    · simp [hidle, Concurrent.Consumer.tests]
    · simp [hidle, hd']
  | empty htests _ _ _ _ =>
    rw [h.tests] at htests
    cases htests

end

/-! ## The simulation -/

section

variable {s : State G I} {c : Dispatch.State G I}

/-- The state belongs to this one of `Dispatch`, or to the one after its next step. -/
def Matched (hasCoreId : Bool) (s : State G I) (c : Dispatch.State G I) : Prop :=
  Refines hasCoreId s c ∨ ∃ b c', Dispatch.step hasCoreId c b = some c' ∧ Refines hasCoreId s c'

/-- Room for an input is room for its entry. -/
theorem Refines.room (h : Refines hasCoreId s c)
    (hc : (Dispatch.machine G I hasCoreId).Reachable c) {t : G.Task} {l : List I}
    (hl : (c.statics.inputs t).Holds l) (hroom : l.length + 1 < G.queueBufferSize t) :
    s.ready.outstanding.length + 1 < G.readyQueueSize := by
  obtain ⟨opens, hi⟩ := Dispatch.inv_reachable hc
  obtain ⟨tokens, inputs, hst, hcount, -⟩ := hi.placed.stores
  have htokens : tokens = s.ready.outstanding :=
    hst.ready.contents.symm.trans h.ready.holds.contents
  have hinputs : inputs t = l := (hst.inputs t).contents.symm.trans hl.contents
  rw [← htokens]
  rw [← hinputs] at hroom
  refine hst.ready_room (fun u => ?_) hroom
  have := hcount u
  omega

/-- A spawn that passes its checks where there is room. -/
theorem step_spawn {t : G.Task} {input : I} {caller : Nat} {pendOk : Bool} {l : List I}
    (hcheck : (G.spawnApi hasCoreId t).coreCheck.any (caller != ·) = false)
    (hinit : c.statics.systemInitialized = true) (hl : (c.statics.inputs t).Holds l)
    (hroom : l.length + 1 < G.queueBufferSize t) :
    Dispatch.step hasCoreId c (.spawn t input caller pendOk) = some { c with
      statics := { c.statics with
        inputs := Function.update c.statics.inputs t ((c.statics.inputs t).enqueueUnchecked input)
        ready := c.statics.ready.enqueueUnchecked t
        pending := c.statics.pending || (Spawner.pend t pendOk : Spawner G I).pends hasCoreId }
      accepted := c.accepted ++ [(t, input)]
      unpended := c.unpended || (Spawner.pend t pendOk : Spawner G I).fails hasCoreId } := by
  rw [Dispatch.step, spawn, hcheck, hinit, hl.enqueue_ok hroom]
  cases hstmt : (G.spawnApi hasCoreId t).pendStmt with
  | none => simp [Group.spawnApi] at hstmt
  | some stmt =>
    cases stmt with
    | coreLocal => simp [Spawner.pends, Spawner.fails, hstmt, rejects, hinit]
    | crossCore => cases pendOk <;> simp [Spawner.pends, Spawner.fails, hstmt, rejects, hinit]

theorem Spawner.Passed.systemInitialized {sp : Spawner G I} {b : Bool} (h : sp.Passed hasCoreId b) :
    sp.Passed hasCoreId true := by
  cases sp with
  | idle | pend _ _ => trivial
  | loadFlag t input caller pendOk => exact h
  | enqueue t input caller pendOk | enqueueReady t input caller pendOk => exact ⟨h.1, rfl⟩

theorem matched_systemInitialized (h : Refines hasCoreId s c) :
    Matched hasCoreId { s with systemInitialized := true } c := by
  refine Or.inr ⟨.systemInitialized, _, rfl, ?_⟩
  exact { h with passed := h.passed.systemInitialized, systemInitialized := rfl }

theorem Refines.pend (h : Refines hasCoreId s c) : Refines hasCoreId { s with pending := true }
    { c with statics := { c.statics with pending := true } } :=
  { h with pending := fun _ => rfl, pends := fun _ => Or.inl rfl }

theorem matched_pend (h : Refines hasCoreId s c) :
    Matched hasCoreId { s with pending := true } c :=
  Or.inr ⟨.pend, _, rfl, h.pend⟩

/-- The spawn has not touched a queue, or does not any more. -/
theorem Refines.at_spawner {sp : Spawner G I} (h : Refines hasCoreId s c)
    (hentry : sp.entry = s.spawner.entry) (hstoring : ∀ t, sp.storing t = s.spawner.storing t)
    (hunready : ∀ t, sp.unready t = s.spawner.unready t)
    (hpassed : sp.Passed hasCoreId s.systemInitialized)
    (hpends : c.statics.pending = true → s.pending = true ∨ sp.pends hasCoreId = true)
    (hunpends : c.unpended = true → s.unpended = true ∨ sp.fails hasCoreId = true) :
    Refines hasCoreId { s with spawner := sp } c :=
  { h with
    ready := h.ready.congr hentry
    inputs := fun t => (h.inputs t).congr (hstoring t) (hunready t) Iff.rfl
    passed := hpassed
    pends := hpends
    unpends := hunpends }

theorem matched_spawn {t : G.Task} {input : I} {caller : Nat} {pendOk : Bool}
    (h : Refines hasCoreId s c) (hidle : s.spawner = .idle)
    (hcheck : (G.spawnApi hasCoreId t).coreCheck.any (caller != ·) = false) :
    Matched hasCoreId { s with spawner := .loadFlag t input caller pendOk } c := by
  have hpends := h.pends
  have hunpends := h.unpends
  rw [hidle] at hpends hunpends
  refine Or.inl (h.at_spawner ?_ ?_ ?_ hcheck ?_ ?_)
  · rw [hidle]
    rfl
  · intro u
    rw [hidle]
    rfl
  · intro u
    rw [hidle]
    rfl
  · exact fun hp => Or.inl ((hpends hp).resolve_right Bool.false_ne_true)
  · exact fun hp => Or.inl ((hunpends hp).resolve_right Bool.false_ne_true)

/-- The spawn has done something to the input queue of its task. -/
theorem Refines.at_inputs {sp : Spawner G I} {t : G.Task}
    {r : Concurrent.State G.Task G.readyQueueSize} {q : Concurrent.State I (G.queueBufferSize t)}
    (h : Refines hasCoreId s c)
    (hready : ReadyPlaced sp s.dispatcher c.dispatcher c.statics.ready r)
    (hinput : InputPlaced sp s.dispatcher t (c.statics.inputs t) q)
    (hne : ∀ u, u ≠ t → sp.storing u = s.spawner.storing u ∧ sp.unready u = s.spawner.unready u)
    (hpassed : sp.Passed hasCoreId s.systemInitialized)
    (hbefore : s.spawner.pends hasCoreId = false ∧ s.spawner.fails hasCoreId = false) :
    Refines hasCoreId { s.setInputs t q with ready := r, spawner := sp } c where
  ready := hready
  inputs := by
    refine (Function.forall_update_iff s.inputs (fun u i =>
      InputPlaced sp s.dispatcher u (c.statics.inputs u) i)).mpr ⟨hinput, fun u hu => ?_⟩
    exact (h.inputs u).congr (hne u hu).1 (hne u hu).2 Iff.rfl
  passed := hpassed
  systemInitialized := h.systemInitialized
  pending := h.pending
  pends := fun hp => Or.inl ((h.pends hp).resolve_right (by simp [hbefore.1]))
  unpends := fun hp => Or.inl ((h.unpends hp).resolve_right (by simp [hbefore.2]))
  accepted := h.accepted
  executed := h.executed

/-- **The spawn happens** when the index of the ready queue is stored. -/
theorem matched_store {t : G.Task} {input : I} {caller : Nat} {pendOk : Bool}
    {q : Concurrent.State G.Task G.readyQueueSize}
    (hc : (Dispatch.machine G I hasCoreId).Reachable c) (h : Refines hasCoreId s c)
    (hsp : s.spawner = .enqueueReady t input caller pendOk)
    (hready : ∀ cq, Queue.Holds cq (s.ready.outstanding ++ [t]) →
      ReadyPlaced (.pend t pendOk) s.dispatcher c.dispatcher cq q) :
    Matched hasCoreId
      { s with ready := q, spawner := .pend t pendOk, accepted := s.accepted ++ [(t, input)] } c := by
  obtain ⟨hcheck, hinit⟩ : (G.spawnApi hasCoreId t).coreCheck.any (caller != ·) = false ∧
      s.systemInitialized = true := by
    have hpassed := h.passed
    rw [hsp] at hpassed
    exact hpassed
  obtain ⟨l, hl, hout⟩ := (h.inputs t).holds
  have hout : (s.inputs t).outstanding = l ++ [input] := by simpa [hsp, Spawner.unready] using hout
  have hroom : l.length + 1 < G.queueBufferSize t := by
    have hroom := (h.inputs t).inv.holds.room
    rw [hout, List.length_append] at hroom
    exact hroom
  refine Or.inr ⟨.spawn t input caller pendOk, _,
    step_spawn hcheck (h.systemInitialized.trans hinit) hl hroom, ?_⟩
  constructor
  · exact hready _ (h.ready.holds.enqueueUnchecked (h.room hc hl hroom) t)
  · intro u
    by_cases hu : u = t
    · subst hu
      have hinput := h.inputs u
      refine ⟨hinput.reachable, ?_, hinput.tests, hinput.consumer, l ++ [input], ?_, ?_⟩
      · rw [hinput.producer, hsp]
        rfl
      · simpa using hl.enqueueUnchecked hroom input
      · simp [hout, Spawner.unready]
    · have hinput : InputPlaced (.pend t pendOk) s.dispatcher u (c.statics.inputs u) (s.inputs u) := by
        refine (h.inputs u).congr ?_ ?_ Iff.rfl
        · simp [hsp, Spawner.storing]
        · simp [hsp, Spawner.unready, Ne.symm hu]
      simpa [hu] using hinput
  · trivial
  · exact h.systemInitialized
  · intro hp
    simp [h.pending hp]
  · intro hp
    rcases (Bool.or_eq_true _ _).mp hp with hp | hp
    · have hpends := h.pends hp
      rw [hsp] at hpends
      exact Or.inl (hpends.resolve_right Bool.false_ne_true)
    · exact Or.inr hp
  · intro hunp
    rcases (Bool.or_eq_true _ _).mp hunp with hunp | hunp
    · have hunpends := h.unpends hunp
      rw [hsp] at hunpends
      exact Or.inl (hunpends.resolve_right Bool.false_ne_true)
    · exact Or.inr hunp
  · show c.accepted ++ _ = s.accepted ++ _
    rw [h.accepted]
  · exact h.executed

/-- The spawn has pended the interrupt, or has failed to. -/
theorem matched_pendStmt {t : G.Task} {pendOk : Bool} (h : Refines hasCoreId s c)
    (hsp : s.spawner = .pend t pendOk) :
    Matched hasCoreId (s.pendStmt pendOk (G.spawnApi hasCoreId t).pendStmt) c := by
  have hentry : (Spawner.idle : Spawner G I).entry = s.spawner.entry := by
    simp [hsp, Spawner.entry]
  have hstoring : ∀ t, (Spawner.idle : Spawner G I).storing t = s.spawner.storing t := by
    simp [hsp, Spawner.storing]
  have hunready : ∀ t, (Spawner.idle : Spawner G I).unready t = s.spawner.unready t := by
    simp [hsp, Spawner.unready]
  have hpends := h.pends
  have hunpends := h.unpends
  rw [hsp] at hpends hunpends
  -- the spawn has already pended the interrupt of `c`, and pends it again if it was taken since
  have hpended : (Spawner.pend t pendOk : Spawner G I).fails hasCoreId = false →
      Matched hasCoreId { s with spawner := .idle, pending := true } c := by
    intro hfails
    refine Or.inr ⟨.pend, _, rfl, h.pend.at_spawner hentry hstoring hunready trivial ?_ ?_⟩
    · exact fun _ => Or.inl rfl
    · exact fun hunp => Or.inl ((hunpends hunp).resolve_right (by simp [hfails]))
  cases hstmt : (G.spawnApi hasCoreId t).pendStmt with
  | none => simp [Group.spawnApi] at hstmt
  | some stmt =>
    cases stmt with
    | coreLocal => exact hpended (by simp [Spawner.fails, hstmt])
    | crossCore =>
      cases pendOk with
      | true => exact hpended (by simp [Spawner.fails])
      | false =>
        have h' : Refines hasCoreId { s with unpended := true } c :=
          { h with unpends := fun _ => Or.inl rfl }
        refine Or.inl (h'.at_spawner hentry hstoring hunready trivial ?_ ?_)
        · intro hp
          exact Or.inl ((hpends hp).resolve_right (by simp [Spawner.pends, hstmt]))
        · exact fun _ => Or.inl rfl

theorem matched_spawner {s' : State G I} (hc : (Dispatch.machine G I hasCoreId).Reachable c)
    (h : Refines hasCoreId s c) (hs : spawnerStep hasCoreId s = some s') :
    Matched hasCoreId s' c := by
  have hready := h.ready
  have hpassed := h.passed
  have hpends := h.pends
  have hunpends := h.unpends
  unfold spawnerStep at hs
  cases hsp : s.spawner with
  | idle => rw [hsp] at hs; cases hs
  | loadFlag t input caller pendOk =>
    rw [hsp] at hs hready hpassed hpends hunpends
    have hinput := h.inputs t
    rw [hsp] at hinput
    simp only at hs
    split at hs
    · next hinit =>
      cases hs
      refine Or.inl (h.at_inputs (hready.congr rfl)
        (hinput.enqueue rfl rfl input caller pendOk) ?_ ⟨hpassed, hinit⟩ ?_)
      · intro u hu
        simp [hsp, Spawner.storing, Spawner.unready, Ne.symm hu]
      · simp [hsp, Spawner.pends, Spawner.fails]
    · cases hs
      refine Or.inl (h.at_spawner ?_ ?_ ?_ trivial ?_ ?_)
      · simp [hsp, Spawner.entry]
      · simp [hsp, Spawner.storing]
      · simp [hsp, Spawner.unready]
      · exact fun hp => Or.inl ((hpends hp).resolve_right Bool.false_ne_true)
      · exact fun hp => Or.inl ((hunpends hp).resolve_right Bool.false_ne_true)
  | enqueue t input caller pendOk =>
    have hinput := h.inputs t
    rw [hsp] at hs hready hpassed hinput
    obtain ⟨q, hq, rfl⟩ := Option.map_eq_some_iff.mp hs
    have hbefore : s.spawner.pends hasCoreId = false ∧ s.spawner.fails hasCoreId = false := by
      simp [hsp, Spawner.pends, Spawner.fails]
    rcases hinput.enqueueing hq with ⟨hreturns, hinput'⟩ | ⟨hreturns, ⟨l, hl, hroom⟩, hinput'⟩ |
      ⟨hreturns, hinput'⟩
    · rw [hreturns]
      have h' := h.at_inputs hready hinput' (fun u _ => by simp [hsp]) hpassed hbefore
      rw [← hsp] at h'
      exact Or.inl h'
    · rw [hreturns]
      refine Or.inl (h.at_inputs (hready.enqueue rfl (h.room hc hl hroom) t input caller pendOk)
        hinput' ?_ hpassed hbefore)
      intro u hu
      simp [hsp, Spawner.storing, Spawner.unready, Ne.symm hu]
    · rw [hreturns]
      refine Or.inl (h.at_inputs (hready.congr rfl) hinput' ?_ trivial hbefore)
      intro u hu
      simp [hsp, Spawner.storing, Spawner.unready, Ne.symm hu]
  | enqueueReady t input caller pendOk =>
    rw [hsp] at hs hready
    obtain ⟨q, hq, rfl⟩ := Option.map_eq_some_iff.mp hs
    rcases hready.enqueueing hq with ⟨hreturns, hready'⟩ | ⟨hreturns, hready'⟩
    · rw [← hsp] at hready'
      have h' : Refines hasCoreId { s with ready := q } c := { h with ready := hready' }
      rw [hreturns, ← hsp]
      exact Or.inl h'
    · rw [hreturns]
      exact matched_store hc h hsp hready'
  | pend t pendOk =>
    rw [hsp] at hs
    cases hs
    exact matched_pendStmt h hsp

/-- The dispatcher has taken an entry, and there is an input for it. -/
theorem inputs_ne_nil (hc : (Dispatch.machine G I hasCoreId).Reachable c) {t : G.Task}
    (hd : c.dispatcher = .dequeued t) {l : List I} (hl : (c.statics.inputs t).Holds l) :
    l ≠ [] := by
  obtain ⟨opens, hi⟩ := Dispatch.inv_reachable hc
  have hplaced := hi.placed
  rw [hd] at hplaced
  obtain ⟨x, rest, rfl, hst⟩ := hplaced
  have hinputs : inputsOf ((t, x) :: rest) t = l := (hst.inputs t).contents.symm.trans hl.contents
  rw [inputsOf_cons_self] at hinputs
  exact hinputs ▸ List.cons_ne_nil _ _

/-- The dispatcher is in no call on an input queue, before and after. -/
theorem Refines.at_dispatcher {d : Dispatcher G I} {cd : Dispatch.Dispatcher G I}
    {r : Concurrent.State G.Task G.readyQueueSize} {cq : Queue G.Task G.readyQueueSize}
    (h : Refines hasCoreId s c) (hready : ReadyPlaced s.spawner d cd cq r)
    (hbefore : ∀ t, ¬ s.dispatcher.Takes t) (hafter : ∀ t, ¬ d.Takes t) :
    Refines hasCoreId { s with dispatcher := d, ready := r }
      { c with dispatcher := cd, statics := { c.statics with ready := cq } } :=
  { h with
    ready := hready
    inputs := fun t => (h.inputs t).congr rfl rfl (iff_of_false (hafter t) (hbefore t)) }

theorem matched_enter (h : Refines hasCoreId s c) (hd : s.dispatcher = .inactive)
    (hp : s.pending = true) :
    Matched hasCoreId { s.loop with pending := false, unpended := false } c := by
  have hready := h.ready
  rw [hd] at hready
  obtain ⟨hidle, hinactive⟩ := hready.consumer
  have hstep : Dispatch.step hasCoreId c .enter = some { c with
      dispatcher := .loop, statics := { c.statics with pending := false }, unpended := false } := by
    simp [Dispatch.step, hinactive, h.pending hp]
  have h' := h.at_dispatcher (hready.loop hidle) (by simp [hd, Dispatcher.Takes])
    (by simp [Dispatcher.Takes])
  refine Or.inr ⟨_, _, hstep, ?_⟩
  exact { h' with
    pending := fun hp => absurd hp Bool.false_ne_true
    pends := fun hp => absurd hp Bool.false_ne_true
    unpends := fun hp => absurd hp Bool.false_ne_true }

theorem matched_dequeue {q : Concurrent.State G.Task G.readyQueueSize}
    (hc : (Dispatch.machine G I hasCoreId).Reachable c) (h : Refines hasCoreId s c)
    (hd : s.dispatcher = .dequeue) (hq : Concurrent.consumerStep s.ready = some q) :
    Matched hasCoreId ({ s with ready := q }.dequeued (s.ready.consumer.returns q.consumer)) c := by
  have hready := h.ready
  rw [hd] at hready
  have hbefore : ∀ t, ¬ s.dispatcher.Takes t := by simp [hd, Dispatcher.Takes]
  rcases hready.dequeueing hq with ⟨hreturns, hready' | ⟨hloop, hcq, hready'⟩⟩ |
    ⟨hreturns, hinactive, hready'⟩ | ⟨t, rest, hreturns, hloop, hcq, hready'⟩
  · rw [hreturns]
    rw [← hd] at hready'
    exact Or.inl { h with ready := hready' }
  · have hstep : Dispatch.step hasCoreId c .dispatch = some { c with dispatcher := .inactive } := by
      simp [Dispatch.step, Dispatch.dispatchStep, hloop, hcq.dequeue_nil]
    rw [hreturns]
    rw [← hd] at hready'
    exact Or.inr ⟨_, _, hstep, { h with ready := hready' }⟩
  · rw [hreturns]
    have h' := h.at_dispatcher hready' hbefore (by simp [Dispatcher.Takes])
    rw [← hinactive] at h'
    exact Or.inl h'
  · have hstep : Dispatch.step hasCoreId c .dispatch = some { c with
        dispatcher := .dequeued t
        statics := { c.statics with ready := c.statics.ready.dequeueUnchecked.2 } } := by
      simp [Dispatch.step, Dispatch.dispatchStep, hloop, hcq.dequeue_cons]
    have hinput := h.inputs t
    obtain ⟨l, hl, hout⟩ := hinput.holds
    have hne : (s.inputs t).outstanding ≠ [] := by
      have hl' : l ≠ [] := inputs_ne_nil (hc.step (a := .dispatch) hstep) rfl hl
      simp [hout, hl']
    rw [hreturns]
    refine Or.inr ⟨_, _, hstep, ?_⟩
    exact { h with
      ready := hready' _ hcq.dequeueUnchecked.2
      inputs := by
        refine (Function.forall_update_iff s.inputs (fun u i =>
          InputPlaced s.spawner (.dequeueInput t) u (c.statics.inputs u) i)).mpr ⟨?_, ?_⟩
        · exact hinput.dequeue (hbefore t) hne
        · intro u hu
          refine (h.inputs u).congr rfl rfl (iff_of_false ?_ (hbefore u))
          simpa [Dispatcher.Takes] using Ne.symm hu }

theorem matched_dequeueInput {t : G.Task} {q : Concurrent.State I (G.queueBufferSize t)}
    (hc : (Dispatch.machine G I hasCoreId).Reachable c) (h : Refines hasCoreId s c)
    (hd : s.dispatcher = .dequeueInput t) (hq : Concurrent.consumerStep (s.inputs t) = some q) :
    Matched hasCoreId (match (s.inputs t).consumer.returns q.consumer with
      | none => s.setInputs t q
      | some v => { s.setInputs t q with dispatcher := .exec t v.join }) c := by
  have hready := h.ready
  have hinput := h.inputs t
  rw [hd] at hready hinput
  obtain ⟨hidle, hdequeued⟩ := hready.consumer
  rcases hinput.dequeueing (fun l => inputs_ne_nil hc hdequeued) hq with
    ⟨hreturns, hinput'⟩ | ⟨x, rest, hreturns, hcq, hinput'⟩
  · rw [hreturns]
    rw [← hd] at hinput'
    refine Or.inl { h with inputs := ?_ }
    exact (Function.forall_update_iff s.inputs (fun u i =>
      InputPlaced s.spawner s.dispatcher u (c.statics.inputs u) i)).mpr
        ⟨hinput', fun u _ => h.inputs u⟩
  · have hstep : Dispatch.step hasCoreId c .dispatch = some { c with
        dispatcher := .exec t (some x)
        statics := { c.statics with
          inputs := Function.update c.statics.inputs t
            (c.statics.inputs t).dequeueUnchecked.2 } } := by
      simp [Dispatch.step, Dispatch.dispatchStep, hdequeued, hcq.dequeueUnchecked.1]
    rw [hreturns]
    refine Or.inr ⟨_, _, hstep, ?_⟩
    exact { h with
      ready := ⟨hready.reachable, hready.producer, hready.tests, ⟨hidle, rfl⟩, hready.holds⟩
      inputs := by
        intro u
        by_cases hu : u = t
        · subst hu
          simpa [State.setInputs] using
            hinput' _ (.exec u (some x)) hcq.dequeueUnchecked.2 (by simp [Dispatcher.Takes])
        · have htakes : ¬ s.dispatcher.Takes u := by simpa [hd, Dispatcher.Takes] using Ne.symm hu
          have hother : InputPlaced s.spawner (.exec t (some x)) u (c.statics.inputs u)
              (s.inputs u) :=
            (h.inputs u).congr rfl rfl (iff_of_false (by simp [Dispatcher.Takes]) htakes)
          simpa [State.setInputs, hu] using hother }

theorem matched_dispatch {s' : State G I} (hc : (Dispatch.machine G I hasCoreId).Reachable c)
    (h : Refines hasCoreId s c) (hs : dispatchStep s = some s') : Matched hasCoreId s' c := by
  have hready := h.ready
  unfold dispatchStep at hs
  cases hd : s.dispatcher with
  | inactive | fault => rw [hd] at hs; cases hs
  | dequeue =>
    rw [hd] at hs
    obtain ⟨q, hq, rfl⟩ := Option.map_eq_some_iff.mp hs
    have hmatched := matched_dequeue hc h hd hq
    rw [hd] at hmatched
    exact hmatched
  | dequeueInput t =>
    rw [hd] at hs
    obtain ⟨q, hq, rfl⟩ := Option.map_eq_some_iff.mp hs
    exact matched_dequeueInput hc h hd hq
  | exec t input =>
    rw [hd] at hs hready
    cases hs
    obtain ⟨hidle, hexec⟩ := hready.consumer
    have hstep : Dispatch.step hasCoreId c .dispatch = some { c with
        dispatcher := .running t, executed := c.executed ++ [(t, input)] } := by
      simp [Dispatch.step, Dispatch.dispatchStep, hexec]
    have hready' : ReadyPlaced s.spawner (.running t) (.running t) c.statics.ready s.ready :=
      ⟨hready.reachable, hready.producer, hready.tests, ⟨hidle, rfl⟩, hready.holds⟩
    have h' := h.at_dispatcher hready' (by simp [hd, Dispatcher.Takes]) (by simp [Dispatcher.Takes])
    exact Or.inr ⟨_, _, hstep, { h' with executed := congrArg (· ++ [(t, input)]) h.executed }⟩
  | running t =>
    rw [hd] at hs hready
    cases hs
    obtain ⟨hidle, hrunning⟩ := hready.consumer
    have hstep : Dispatch.step hasCoreId c .dispatch = some { c with dispatcher := .loop } := by
      simp [Dispatch.step, Dispatch.dispatchStep, hrunning]
    exact Or.inr ⟨_, _, hstep, h.at_dispatcher (hready.loop hidle) (by simp [hd, Dispatcher.Takes])
      (by simp [Dispatcher.Takes])⟩

theorem refines_init :
    Refines hasCoreId (machine G I hasCoreId).init (Dispatch.machine G I hasCoreId).init where
  ready := ⟨.init, rfl, rfl, ⟨rfl, rfl⟩, Queue.new_holds (Nat.succ_pos _)⟩
  inputs := fun t => ⟨.init, rfl, rfl, by simp [machine, Concurrent.machine, Dispatcher.Takes],
    [], Queue.new_holds (Nat.succ_pos _), rfl⟩
  passed := trivial
  systemInitialized := rfl
  pending := fun hp => absurd hp Bool.false_ne_true
  pends := fun hp => absurd hp Bool.false_ne_true
  unpends := fun hp => absurd hp Bool.false_ne_true
  accepted := rfl
  executed := rfl

/-- **Every access is invisible or one step of `Dispatch`.** -/
theorem simulates : Machine.Simulates (machine G I hasCoreId) (Dispatch.machine G I hasCoreId)
    (Refines hasCoreId) where
  init := refines_init
  step := by
    intro s a s' c hc h hs
    cases a with
    | systemInitialized =>
      cases hs
      exact matched_systemInitialized h
    | spawn t input caller pendOk =>
      simp only [machine, step] at hs
      split at hs
      next hidle =>
        split at hs
        · cases hs
          exact Or.inl h
        · next hcheck =>
          cases hs
          exact matched_spawn h hidle (by simpa using hcheck)
      · cases hs
    | spawner => exact matched_spawner hc h hs
    | pend =>
      cases hs
      exact matched_pend h
    | enter =>
      simp only [machine, step] at hs
      split at hs
      next hd =>
        split at hs
        · next hp =>
          cases hs
          exact matched_enter h hd hp
        · cases hs
      · cases hs
    | dispatch => exact matched_dispatch hc h hs

/-! ## What follows -/

/-- With no spawn under way, an idle dispatcher that is not pended has executed everything, unless
it could not be pended. -/
theorem Refines.executed_all (h : Refines hasCoreId s c)
    (hc : (Dispatch.machine G I hasCoreId).Reachable c) (hd : s.dispatcher = .inactive)
    (hsp : s.spawner = .idle) (hp : s.pending = false) (hunp : s.unpended = false) :
    s.executed = s.accepted.map Dispatch.call := by
  obtain ⟨opens, hi⟩ := Dispatch.inv_reachable hc
  have hready := h.ready.consumer
  have hpends := h.pends
  have hunpends := h.unpends
  rw [hd] at hready
  rw [hsp, hp] at hpends
  rw [hsp, hunp] at hunpends
  have hnil : opens = [] := by
    by_contra hne
    rcases hi.pends hne hready.2 with hcp | hcp
    · exact (hpends hcp).elim Bool.false_ne_true Bool.false_ne_true
    · exact (hunpends hcp).elim Bool.false_ne_true Bool.false_ne_true
  subst hnil
  rw [← h.executed, ← h.accepted]
  exact hi.account.all_delivered

/-- The actions of the dispatcher itself. -/
def Action.ofDispatcher : Action G I → Bool
  | .enter | .dispatch => true
  | _ => false

/-- The accesses the dispatcher has left: thirteen for each entry, of which six take it and five take
its input. -/
def State.work (s : State G I) : Nat :=
  13 * s.ready.outstanding.length + 7 * s.pending.toNat +
    match s.dispatcher with
    | .inactive | .fault => 0
    | .dequeue => s.ready.consumer.left
    | .dequeueInput t => 8 + (s.inputs t).consumer.left
    | .exec _ _ => 8
    | .running _ => 7

/-- What a step of the dispatcher leaves as it is. -/
structure Dispatched (s s' : State G I) : Prop where
  spawner : s'.spawner = s.spawner
  accepted : s'.accepted = s.accepted
  unpended : s.unpended = false → s'.unpended = false
  work : s'.work < s.work

theorem dispatched_of_dequeue {q : Concurrent.State G.Task G.readyQueueSize}
    (h : Refines hasCoreId s c) (hd : s.dispatcher = .dequeue)
    (hq : Concurrent.consumerStep s.ready = some q) :
    Dispatched s ({ s with ready := q }.dequeued (s.ready.consumer.returns q.consumer)) := by
  have hleft := Concurrent.consumerStep_left hq
  obtain ⟨-, hcases⟩ := Concurrent.consumer_cases h.ready.inv hq
  cases hcases with
  | goes hreturns _ _ hout _ _ =>
    rw [hreturns]
    refine ⟨rfl, rfl, id, ?_⟩
    simp only [State.dequeued, State.work, hd, hout]
    omega
  | taken t _ hreturns _ hout =>
    have hunchecked : (Concurrent.Consumer.loadReadUnchecked : Concurrent.Consumer I).left = 5 := rfl
    rw [hreturns]
    refine ⟨rfl, rfl, id, ?_⟩
    simp only [State.dequeued, State.work, State.setInputs, Function.update_self, hunchecked, hd,
      hout, List.length_cons]
    omega
  | empty _ hreturns _ hout _ =>
    rw [hreturns]
    refine ⟨rfl, rfl, id, ?_⟩
    simp only [State.dequeued, State.work, hd, hout]
    omega

theorem dispatched_of_dispatchStep {s' : State G I} (h : Refines hasCoreId s c)
    (hs : dispatchStep s = some s') : Dispatched s s' := by
  unfold dispatchStep at hs
  cases hd : s.dispatcher with
  | inactive | fault => rw [hd] at hs; cases hs
  | dequeue =>
    rw [hd] at hs
    obtain ⟨q, hq, rfl⟩ := Option.map_eq_some_iff.mp hs
    have hdispatched := dispatched_of_dequeue h hd hq
    rw [hd] at hdispatched
    exact hdispatched
  | dequeueInput t =>
    rw [hd] at hs
    obtain ⟨q, hq, rfl⟩ := Option.map_eq_some_iff.mp hs
    have hleft := Concurrent.consumerStep_left hq
    split
    · refine ⟨rfl, rfl, id, ?_⟩
      simp only [State.work, State.setInputs, hd, Function.update_self]
      omega
    · refine ⟨rfl, rfl, id, ?_⟩
      simp only [State.work, State.setInputs, hd]
      omega
  | exec t input =>
    rw [hd] at hs
    cases hs
    refine ⟨rfl, rfl, id, ?_⟩
    simp only [State.work, hd]
    omega
  | running t =>
    rw [hd] at hs
    cases hs
    refine ⟨rfl, rfl, id, ?_⟩
    simp only [State.work, State.loop, hd, Concurrent.Consumer.left]
    exact Nat.lt_succ_self _

/-- **A step of the dispatcher is one less to take.** -/
theorem dispatched_of_step {s' : State G I} {a : Action G I} (h : Refines hasCoreId s c)
    (ha : a.ofDispatcher = true) (hs : step hasCoreId s a = some s') : Dispatched s s' := by
  cases a with
  | systemInitialized | spawn _ _ _ _ | spawner | pend => cases ha
  | dispatch => exact dispatched_of_dispatchStep h hs
  | enter =>
    simp only [step] at hs
    split at hs
    next hd =>
      split at hs
      · next hp =>
        cases hs
        refine ⟨rfl, rfl, fun _ => rfl, ?_⟩
        have hload : (Concurrent.Consumer.loadWrite : Concurrent.Consumer G.Task).left = 6 := rfl
        simp only [State.work, State.loop, Concurrent.State.outstanding, hd, hp, hload,
          Bool.toNat_false, Bool.toNat_true]
        omega
      · cases hs
    · cases hs

/-- The dispatcher stops nowhere but at its end. -/
theorem inactive_of_stuck (h : Refines hasCoreId s c)
    (hstuck : ∀ a : Action G I, a.ofDispatcher = true → step hasCoreId s a = none) :
    s.dispatcher = .inactive ∧ s.pending = false := by
  have hready := h.ready.consumer
  have hdispatch := hstuck .dispatch rfl
  have henter := hstuck .enter rfl
  simp only [step, dispatchStep] at hdispatch henter
  cases hd : s.dispatcher with
  | inactive =>
    rw [hd] at henter
    refine ⟨rfl, ?_⟩
    by_contra hp
    simp [hp] at henter
  | fault => rw [hd] at hready; exact hready.elim
  | dequeue =>
    rw [hd] at hdispatch hready
    obtain ⟨q, hq⟩ := Concurrent.exists_consumerStep hready.1
    simp [hq] at hdispatch
  | dequeueInput t =>
    have hne : (s.inputs t).consumer ≠ .idle := by
      rw [ne_eq, (h.inputs t).consumer, hd]
      simp [Dispatcher.Takes]
    rw [hd] at hdispatch
    obtain ⟨q, hq⟩ := Concurrent.exists_consumerStep hne
    simp [hq] at hdispatch
  | exec t input | running t => simp [hd] at hdispatch

end

section

variable {s : State G I}

/-- **The dispatcher needs no critical section.** Whatever the two sides do, access by
access, is what `Dispatch` does in at most as many steps, with the same spawns accepted and the same
tasks executed. -/
theorem accesses_refine {as : List (Action G I)}
    (h : (machine G I hasCoreId).exec (machine G I hasCoreId).init as = some s) :
    ∃ bs c, bs.length ≤ as.length ∧
      (Dispatch.machine G I hasCoreId).exec (Dispatch.machine G I hasCoreId).init bs = some c ∧
      Refines hasCoreId s c :=
  simulates.exec .init refines_init h

/-- A spawn begins inside a `dequeue`, and stores its entry after the dispatcher took the other. -/
def interleaved : List (Action Dispatch.twoTasks Nat) :=
  [.systemInitialized, .spawn Dispatch.tick 10 0 true] ++ List.replicate 13 .spawner ++
    [.enter, .dispatch, .spawn Dispatch.worker 20 0 true, .dispatch] ++
    List.replicate 10 .spawner ++ List.replicate 10 .dispatch ++ List.replicate 3 .spawner

theorem accesses_refine_run :
    ∃ s, (machine Dispatch.twoTasks Nat true).exec (machine Dispatch.twoTasks Nat true).init
        interleaved = some s ∧
      s.accepted = [(Dispatch.tick, 10), (Dispatch.worker, 20)] ∧
      s.executed = [(Dispatch.tick, some 10)] ∧
      ∃ bs c, bs.length ≤ interleaved.length ∧
        (Dispatch.machine Dispatch.twoTasks Nat true).exec
          (Dispatch.machine Dispatch.twoTasks Nat true).init bs = some c ∧ Refines true s c :=
  ⟨_, rfl, rfl, rfl, accesses_refine rfl⟩

/--
**Spawns are conserved down to the accesses.** In every state of every interleaving:

* the tasks were executed, with their inputs, in the order in which their spawns were accepted, and
  no entry was taken out of a slot without a value;
* each queue has been used as its contract says, so its unchecked calls had room or a value;
* no wakeup is lost: an idle dispatcher that is not pended has executed everything, unless a spawn
  is under way or has failed to pend it.
-/
theorem accesses_conserve_spawns (h : (machine G I hasCoreId).Reachable s) :
    s.executed <+: s.accepted.map Dispatch.call ∧ s.dispatcher ≠ .fault ∧
    (Concurrent.machine G.Task G.readyQueueSize).Reachable s.ready ∧
    (∀ t, (Concurrent.machine I (G.queueBufferSize t)).Reachable (s.inputs t)) ∧
    (s.dispatcher = .inactive → s.spawner = .idle → s.pending = false → s.unpended = false →
      s.executed = s.accepted.map Dispatch.call) := by
  obtain ⟨c, hc, href⟩ := simulates.reachable h
  obtain ⟨opens, hi⟩ := Dispatch.inv_reachable hc
  refine ⟨?_, ?_, href.ready.reachable, fun t => (href.inputs t).reachable, href.executed_all hc⟩
  · rw [← href.executed, ← href.accepted]
    exact hi.account.delivered_prefix
  · intro hd
    have hready := href.ready.consumer
    rw [hd] at hready
    exact hready

theorem accesses_conserve_spawns_run :
    ∃ s, (machine Dispatch.twoTasks Nat true).exec (machine Dispatch.twoTasks Nat true).init
        interleaved = some s ∧ s.executed <+: s.accepted.map Dispatch.call := by
  refine ⟨_, rfl, ?_⟩
  have h : (machine Dispatch.twoTasks Nat true).Reachable _ :=
    Machine.reachable_iff_exec.mpr ⟨interleaved, rfl⟩
  exact (accesses_conserve_spawns h).1

/-- **The dispatcher comes to an end, and then nothing is left.** Where no spawn is under way and none
has failed to pend the interrupt, the dispatcher takes at most `State.work` accesses, and where it
can take none it has executed every accepted spawn. -/
theorem accesses_drain {s' : State G I} {as : List (Action G I)}
    (h : (machine G I hasCoreId).Reachable s) (hsp : s.spawner = .idle)
    (hunp : s.unpended = false) (has : ∀ a ∈ as, a.ofDispatcher = true)
    (hexec : (machine G I hasCoreId).exec s as = some s') :
    as.length + s'.work ≤ s.work ∧
    ((∀ a : Action G I, a.ofDispatcher = true → step hasCoreId s' a = none) →
      s'.dispatcher = .inactive ∧ s'.executed = s.accepted.map Dispatch.call) := by
  have hstep : ∀ (s₁ : State G I) a s₂,
      ((machine G I hasCoreId).Reachable s₁ ∧ s₁.spawner = .idle ∧ s₁.unpended = false ∧
        s₁.accepted = s.accepted) → a.ofDispatcher = true →
      (machine G I hasCoreId).step s₁ a = some s₂ →
      ((machine G I hasCoreId).Reachable s₂ ∧ s₂.spawner = .idle ∧ s₂.unpended = false ∧
        s₂.accepted = s.accepted) ∧ s₂.work < s₁.work := by
    rintro s₁ a s₂ ⟨hreach, hidle, hunp, hacc⟩ ha hs
    obtain ⟨c, -, href⟩ := simulates.reachable hreach
    have hdispatched := dispatched_of_step href ha hs
    exact ⟨⟨hreach.step hs, hdispatched.spawner.trans hidle, hdispatched.unpended hunp,
      hdispatched.accepted.trans hacc⟩, hdispatched.work⟩
  obtain ⟨⟨hreach, hidle, hunp', hacc⟩, hlen⟩ :=
    Machine.exec_length_le hstep ⟨h, hsp, hunp, rfl⟩ has hexec
  refine ⟨hlen, fun hstuck => ?_⟩
  obtain ⟨c, hc, href⟩ := simulates.reachable hreach
  obtain ⟨hd, hp⟩ := inactive_of_stuck href hstuck
  exact ⟨hd, hacc ▸ href.executed_all hc hd hidle hp hunp'⟩

/-- The dispatcher goes on to its end; the interrupt was pended once more than needed. -/
def toTheEnd : List (Action Dispatch.twoTasks Nat) :=
  List.replicate 16 .dispatch ++ [.enter] ++ List.replicate 2 .dispatch

theorem accesses_drain_run : ∃ s s',
    (machine Dispatch.twoTasks Nat true).exec (machine Dispatch.twoTasks Nat true).init
      interleaved = some s ∧
    (machine Dispatch.twoTasks Nat true).exec s toTheEnd = some s' ∧
    toTheEnd.length + s'.work ≤ s.work ∧
    s'.executed = [(Dispatch.tick, some 10), (Dispatch.worker, some 20)] := by
  refine ⟨_, _, rfl, rfl, ?_, rfl⟩
  have h : (machine Dispatch.twoTasks Nat true).Reachable _ :=
    Machine.reachable_iff_exec.mpr ⟨interleaved, rfl⟩
  exact (@accesses_drain _ _ _ _ _ toTheEnd h rfl rfl (by decide) rfl).1

end

end Rticx.SwPass.Accesses
