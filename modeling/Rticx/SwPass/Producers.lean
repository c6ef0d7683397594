import Rticx.Lib.Machine
import Rticx.SwPass.Codegen

/-!
# Who works on the queues

The generated code on any number of cores, as far as it decides which core makes which operation of
which queue: `spawn` and `cross_spawn` may be called by any code on any core, interrupts nest, and
dispatchers run the code of the user. A queue answers anything; what is shown here is what the
queues rely on, and so it must not rely on them.
-/

namespace Rticx.SwPass.Producers

open Rticx.Core Rticx.Lib

/-! ## The machine -/

/-- An operation of a queue: an enqueue that succeeds, or a dequeue. -/
inductive Access where
  | enqueue (fn : SpawnFn)
  | dequeue (consumer : Consumer)

structure Event where
  queue : Ident
  /-- the core that runs the operation -/
  core : Nat
  /-- interrupts are masked on this core -/
  masked : Bool
  access : Access

/-- Where a call of `spawn` or `cross_spawn` is; `primask` is what the critical section restores. -/
inductive SpawnPc where
  /-- `if #current_core_id != #core_lit` -/
  | check
  /-- the call of the critical section -/
  | enter
  /-- `if unsafe { !#system_initialized_flag }` -/
  | initialized (primask : Bool)
  /-- `inputs_producer.enqueue(input)` -/
  | inputs (primask : Bool)
  /-- `ready_producer.enqueue_unchecked(task)` -/
  | ready (primask : Bool)
  /-- the interrupt-pending statement -/
  | pend (primask : Bool)

/-- The call is in its critical section. -/
def SpawnPc.inside : SpawnPc → Bool
  | .check | .enter => false
  | .initialized _ | .inputs _ | .ready _ | .pend _ => true

/-- The call is behind the check of the core. -/
def SpawnPc.checked : SpawnPc → Bool
  | .check => false
  | _ => true

/-- Where a consumer is; `again` in its second attempt to install a task. -/
inductive ConsumerPc where
  /-- `while let Some(task) = ready_consumer.dequeue()` -/
  | drain
  /-- `exec.try_allocate()` -/
  | install (arm : Arm) (again : Bool)
  /-- `input_consumer.dequeue_unchecked()` -/
  | take (arm : Arm) (again : Bool)
  /-- `ovf_producer.enqueue_unchecked(task)` -/
  | defer (again : Bool)
  /-- inside `exec(input)` of a software task -/
  | exec
  /-- the running futures -/
  | poll
  /-- `while let Some(task) = ovf_consumer.dequeue()` -/
  | collect
  /-- `for i in 0..deferred_len` -/
  | reinstall

/-- The arm of the task that the consumer has in hand. -/
def ConsumerPc.arm : ConsumerPc → Option Arm
  | .install arm _ | .take arm _ => some arm
  | _ => none

inductive Frame where
  | spawn (fn : SpawnFn) (pc : SpawnPc)
  | consumer (k : Consumer) (pc : ConsumerPc)

/-- The frame is in a critical section. -/
def Frame.inside : Frame → Bool
  | .spawn _ pc => pc.inside
  | .consumer _ _ => false

/-- The generated functions that are active on each core, innermost first, and what was done. -/
structure State where
  frames : Nat → List Frame
  primask : Nat → Bool
  log : List Event

/-- What a queue, a flag or a slot answers, and which task comes out of a queue. -/
structure Answer where
  ok : Bool
  arm : Arm

inductive Action where
  /-- some code on the core calls a generated function -/
  | call (core : Nat) (fn : SpawnFn)
  /-- an interrupt is taken, or the idle task starts -/
  | enter (core : Nat) (k : Consumer)
  /-- the user masks or unmasks interrupts -/
  | setPrimask (core : Nat) (primask : Bool)
  /-- the innermost function goes on -/
  | step (core : Nat) (answer : Answer)

namespace State

/-- Nothing but the critical section runs on the core. -/
def critical (s : State) (core : Nat) : Bool :=
  match s.frames core with
  | frame :: _ => frame.inside
  | [] => false

def setFrames (s : State) (core : Nat) (frames : List Frame) : State :=
  { s with frames := Function.update s.frames core frames }

def setPrimask (s : State) (core : Nat) (primask : Bool) : State :=
  { s with primask := Function.update s.primask core primask }

def record (s : State) (core : Nat) (queue : Ident) (access : Access) : State :=
  { s with log := s.log ++ [{
      queue := queue, core := core, masked := s.primask core, access := access }] }

/-- A call of a generated function. -/
def call (code : Code) (s : State) (core : Nat) (fn : SpawnFn) : Option State :=
  if fn ∈ code.spawns ∧ s.critical core = false then
    some (s.setFrames core (.spawn fn .check :: s.frames core))
  else none

/-- A dispatcher interrupts what runs, unless interrupts are masked; the idle task does not. -/
def mayEnter (s : State) (core : Nat) (k : Consumer) : Bool :=
  match k.kind with
  | .software | .async => !s.primask core
  | .idle => (s.frames core).isEmpty

def enter (code : Code) (s : State) (core : Nat) (k : Consumer) : Option State :=
  if k ∈ code.consumers ∧ k.core = core ∧ s.critical core = false ∧ s.mayEnter core k then
    some (s.setFrames core (.consumer k .drain :: s.frames core))
  else none

/-- A step of `spawn` or `cross_spawn`; `rest` is what it returns to. -/
def spawnStep (currentCoreId : Nat → Nat) (s : State) (core : Nat) (answer : Answer) (fn : SpawnFn)
    (rest : List Frame) : SpawnPc → State
  | .check =>
    if fn.coreCheck.any (currentCoreId core != ·) then s.setFrames core rest
    else s.setFrames core (.spawn fn .enter :: rest)
  | .enter =>
    (s.setFrames core (.spawn fn (.initialized (s.primask core)) :: rest)).setPrimask core true
  | .initialized primask =>
    if answer.ok then s.setFrames core (.spawn fn (.inputs primask) :: rest)
    else (s.setFrames core rest).setPrimask core primask
  | .inputs primask =>
    if answer.ok then
      (s.record core fn.inputsQueue (.enqueue fn)).setFrames core
        (.spawn fn (.ready primask) :: rest)
    else (s.setFrames core rest).setPrimask core primask
  | .ready primask =>
    (s.record core fn.readyQueue (.enqueue fn)).setFrames core (.spawn fn (.pend primask) :: rest)
  | .pend primask => (s.setFrames core rest).setPrimask core primask

/-- Behind an attempt to install a task. -/
def afterInstall (again : Bool) : ConsumerPc := if again then .reinstall else .drain

/-- A step of a consumer; only a variant of the enum of the group comes out of its queues. -/
def consumerStep (s : State) (core : Nat) (answer : Answer) (k : Consumer) (rest : List Frame) :
    ConsumerPc → Option State
  | .drain =>
    let s := s.record core k.readyQueue (.dequeue k)
    if answer.ok then
      if answer.arm ∈ k.arms then
        match k.kind with
        | .software => some (s.setFrames core (.consumer k (.take answer.arm false) :: rest))
        | .async | .idle => some (s.setFrames core (.consumer k (.install answer.arm false) :: rest))
      else none
    else
      match k.kind with
      | .software => some (s.setFrames core rest)
      | .async | .idle => some (s.setFrames core (.consumer k .poll :: rest))
  | .install arm again =>
    if answer.ok then some (s.setFrames core (.consumer k (.take arm again) :: rest))
    else some (s.setFrames core (.consumer k (.defer again) :: rest))
  | .take arm again =>
    let s := s.record core arm.inputsQueue (.dequeue k)
    match k.kind with
    | .software => some (s.setFrames core (.consumer k .exec :: rest))
    | .async | .idle => some (s.setFrames core (.consumer k (afterInstall again) :: rest))
  | .defer again => some (s.setFrames core (.consumer k (afterInstall again) :: rest))
  | .exec => some (s.setFrames core (.consumer k .drain :: rest))
  | .poll => some (s.setFrames core (.consumer k .collect :: rest))
  | .collect =>
    if answer.ok then some s else some (s.setFrames core (.consumer k .reinstall :: rest))
  | .reinstall =>
    if answer.ok then
      if answer.arm ∈ k.arms then
        some (s.setFrames core (.consumer k (.install answer.arm true) :: rest))
      else none
    else
      match k.kind with
      | .software | .async => some (s.setFrames core rest)
      -- the idle executor loops
      | .idle => some (s.setFrames core (.consumer k .drain :: rest))

/-- The innermost function of the core goes on. -/
def go (currentCoreId : Nat → Nat) (s : State) (core : Nat) (answer : Answer) : Option State :=
  match s.frames core with
  | [] => none
  | .spawn fn pc :: rest => some (s.spawnStep currentCoreId core answer fn rest pc)
  | .consumer k pc :: rest => s.consumerStep core answer k rest pc

end State

def step (code : Code) (currentCoreId : Nat → Nat) (s : State) : Action → Option State
  | .call core fn => s.call code core fn
  | .enter core k => s.enter code core k
  | .setPrimask core primask =>
    if s.critical core then none else some (s.setPrimask core primask)
  | .step core answer => s.go currentCoreId core answer

/-- The cores from reset; `currentCoreId` is what the expression of the backend yields on each. -/
def machine (code : Code) (currentCoreId : Nat → Nat) : Machine State Action where
  init := { frames := fun _ => [], primask := fun _ => false, log := [] }
  step := step code currentCoreId

/-! ## The invariant -/

variable {code : Code} {currentCoreId : Nat → Nat} {s s' : State} {core : Nat}

/-- What a frame on a core is known to be. -/
def Frame.Ok (code : Code) (core : Nat) : Frame → Prop
  | .spawn fn pc => fn ∈ code.spawns ∧ (pc.checked = true → ∀ c, fn.coreCheck = some c → c = core)
  | .consumer k pc => k ∈ code.consumers ∧ k.core = core ∧ ∀ arm, pc.arm = some arm → arm ∈ k.arms

/-- Who may have made the operation. -/
def Event.Ok (code : Code) (e : Event) : Prop :=
  match e.access with
  | .enqueue fn =>
    fn ∈ code.spawns ∧ (e.queue = fn.inputsQueue ∨ e.queue = fn.readyQueue) ∧ e.masked = true ∧
      ∀ c, fn.coreCheck = some c → c = e.core
  | .dequeue k =>
    k ∈ code.consumers ∧ e.core = k.core ∧
      (e.queue = k.readyQueue ∨ ∃ arm ∈ k.arms, e.queue = arm.inputsQueue)

/-- The frames of one core; a critical section is innermost, and masks the interrupts. -/
structure StackOk (code : Code) (core : Nat) (frames : List Frame) (primask : Bool) : Prop where
  ok : ∀ f ∈ frames, f.Ok code core
  innermost : ∀ f ∈ frames.tail, f.inside = false
  critical : (∃ f, frames.head? = some f ∧ f.inside = true) → primask = true

structure Inv (code : Code) (s : State) : Prop where
  cores : ∀ c, StackOk code c (s.frames c) (s.primask c)
  log : ∀ e ∈ s.log, e.Ok code

/-! ## What a change of one core keeps -/

section Updates

variable {frames rest : List Frame} {f g : Frame} {primask primask' : Bool}

/-- Behind the innermost frame no frame is in a critical section. -/
theorem StackOk.pop (h : StackOk code core (g :: rest) primask) (primask' : Bool) :
    StackOk code core rest primask' where
  ok := fun f hf => h.ok f (List.mem_cons_of_mem _ hf)
  innermost := fun f hf => h.innermost f (List.mem_of_mem_tail hf)
  critical := by
    rintro ⟨f, hf, hin⟩
    have hout := h.innermost f (List.mem_of_mem_head? hf)
    rw [hin] at hout
    cases hout

theorem StackOk.replace (h : StackOk code core (g :: rest) primask) (hf : f.Ok code core)
    (hcritical : f.inside = true → primask' = true) : StackOk code core (f :: rest) primask' where
  ok := by
    intro f' hf'
    rcases List.mem_cons.mp hf' with rfl | hf'
    · exact hf
    · exact h.ok f' (List.mem_cons_of_mem _ hf')
  innermost := h.innermost
  critical := by
    rintro ⟨f', hf', hin⟩
    cases hf'
    exact hcritical hin

theorem StackOk.push (h : StackOk code core frames primask) (hf : f.Ok code core)
    (hout : f.inside = false) (hcrit : ∀ g, frames.head? = some g → g.inside = false) :
    StackOk code core (f :: frames) primask where
  ok := by
    intro f' hf'
    rcases List.mem_cons.mp hf' with rfl | hf'
    · exact hf
    · exact h.ok f' hf'
  innermost := by
    intro f' hf'
    cases frames with
    | nil => cases hf'
    | cons g rest =>
      rcases List.mem_cons.mp hf' with rfl | hf'
      · exact hcrit f' rfl
      · exact h.innermost f' hf'
  critical := by
    rintro ⟨f', hf', hin⟩
    cases hf'
    rw [hout] at hin
    cases hin

theorem State.critical_eq_false (h : s.critical core = false) :
    ∀ g, (s.frames core).head? = some g → g.inside = false := by
  intro g hg
  unfold State.critical at h
  cases hframes : s.frames core with
  | nil =>
    rw [hframes] at hg
    cases hg
  | cons frame rest =>
    rw [hframes] at hg h
    cases hg
    exact h

theorem Inv.setFrames (h : Inv code s) (hc : StackOk code core frames (s.primask core)) :
    Inv code (s.setFrames core frames) where
  cores := by
    intro c
    unfold State.setFrames
    by_cases hcore : c = core
    · subst hcore
      simpa using hc
    · simpa [hcore] using h.cores c
  log := h.log

theorem Inv.setPrimask (h : Inv code s) (hc : StackOk code core (s.frames core) primask) :
    Inv code (s.setPrimask core primask) where
  cores := by
    intro c
    unfold State.setPrimask
    by_cases hcore : c = core
    · subst hcore
      simpa using hc
    · simpa [hcore] using h.cores c
  log := h.log

theorem Inv.setBoth (h : Inv code s) (hc : StackOk code core frames primask) :
    Inv code ((s.setFrames core frames).setPrimask core primask) where
  cores := by
    intro c
    unfold State.setPrimask State.setFrames
    by_cases hcore : c = core
    · subst hcore
      simpa using hc
    · simpa [hcore] using h.cores c
  log := h.log

theorem Inv.record (h : Inv code s) {queue : Ident} {access : Access}
    (he : Event.Ok code {
      queue := queue, core := core, masked := s.primask core, access := access }) :
    Inv code (s.record core queue access) where
  cores := h.cores
  log := by
    intro e he'
    rcases List.mem_append.mp he' with he' | he'
    · exact h.log e he'
    · rw [List.mem_singleton.mp he']
      exact he

end Updates

/-! ## Every step keeps it -/

theorem Inv.call (h : Inv code s) {fn : SpawnFn} (hs : s.call code core fn = some s') :
    Inv code s' := by
  unfold State.call at hs
  split at hs
  · rename_i hcall
    cases hs
    refine h.setFrames ((h.cores core).push ⟨hcall.1, ?_⟩ rfl (State.critical_eq_false hcall.2))
    intro hchecked
    cases hchecked
  · cases hs

theorem Inv.enter (h : Inv code s) {k : Consumer} (hs : s.enter code core k = some s') :
    Inv code s' := by
  unfold State.enter at hs
  split at hs
  · rename_i henter
    cases hs
    refine h.setFrames ((h.cores core).push ⟨henter.1, henter.2.1, ?_⟩ rfl
      (State.critical_eq_false henter.2.2.1))
    intro arm harm
    cases harm
  · cases hs

/-- **A call passes the check on its core only, and enqueues in its critical section only.** -/
theorem Inv.spawnStep (h : Inv code s) (hid : ∀ c, currentCoreId c = c) {answer : Answer}
    {fn : SpawnFn} {rest : List Frame} {pc : SpawnPc}
    (hframes : s.frames core = .spawn fn pc :: rest) :
    Inv code (s.spawnStep currentCoreId core answer fn rest pc) := by
  have hcore := h.cores core
  rw [hframes] at hcore
  obtain ⟨hfn, hchecked⟩ : Frame.Ok code core (.spawn fn pc) := hcore.ok _ List.mem_cons_self
  have hok : ∀ pc' : SpawnPc, pc.checked = true → Frame.Ok code core (.spawn fn pc') :=
    fun pc' hpc => ⟨hfn, fun _ => hchecked hpc⟩
  have hmasked : pc.inside = true → s.primask core = true :=
    fun hin => hcore.critical ⟨_, rfl, hin⟩
  have hrec : ∀ queue, pc.inside = true → pc.checked = true →
      (queue = fn.inputsQueue ∨ queue = fn.readyQueue) →
      Inv code (s.record core queue (.enqueue fn)) :=
    fun queue hin hpc hqueue => h.record ⟨hfn, hqueue, hmasked hin, hchecked hpc⟩
  cases pc with
  | check =>
    simp only [State.spawnStep]
    split
    · exact h.setFrames (hcore.pop _)
    · -- the check lets the call pass: the core is the one it is compared with
      rename_i hcheck
      have hf : Frame.Ok code core (.spawn fn .enter) := by
        refine ⟨hfn, ?_⟩
        intro _ c hc
        rw [hc, hid] at hcheck
        by_contra hne
        exact hcheck (by simpa using Ne.symm hne)
      refine h.setFrames (hcore.replace hf ?_)
      intro hin
      cases hin
  | enter => exact h.setBoth (hcore.replace (hok _ rfl) fun _ => rfl)
  | initialized primask =>
    simp only [State.spawnStep]
    split
    · exact h.setFrames (hcore.replace (hok _ rfl) fun _ => hmasked rfl)
    · exact h.setBoth (hcore.pop _)
  | inputs primask =>
    simp only [State.spawnStep]
    split
    · exact (hrec _ rfl rfl (Or.inl rfl)).setFrames
        (hcore.replace (hok _ rfl) fun _ => hmasked rfl)
    · exact h.setBoth (hcore.pop _)
  | ready primask =>
    exact (hrec _ rfl rfl (Or.inr rfl)).setFrames
      (hcore.replace (hok _ rfl) fun _ => hmasked rfl)
  | pend primask => exact h.setBoth (hcore.pop _)

/-- **A consumer takes from its ready queue, and from the input queue of the task it has in hand.** -/
theorem Inv.consumerStep (h : Inv code s) {answer : Answer} {k : Consumer} {rest : List Frame}
    {pc : ConsumerPc} (hframes : s.frames core = .consumer k pc :: rest)
    (hs : s.consumerStep core answer k rest pc = some s') : Inv code s' := by
  have hcore := h.cores core
  rw [hframes] at hcore
  obtain ⟨hk, hkcore, harm⟩ : Frame.Ok code core (.consumer k pc) := hcore.ok _ List.mem_cons_self
  have hdequeue : ∀ queue, (queue = k.readyQueue ∨ ∃ arm ∈ k.arms, queue = arm.inputsQueue) →
      Inv code (s.record core queue (.dequeue k)) :=
    fun queue hqueue => h.record ⟨hk, hkcore.symm, hqueue⟩
  -- the next position of the same consumer, with or without a task in hand
  have hgo : ∀ pc' : ConsumerPc, (∀ arm, pc'.arm = some arm → arm ∈ k.arms) →
      StackOk code core (.consumer k pc' :: rest) (s.primask core) := by
    intro pc' harm'
    exact hcore.replace ⟨hk, hkcore, harm'⟩ (by intro hin; cases hin)
  have hfree : ∀ pc' : ConsumerPc, pc'.arm = none →
      StackOk code core (.consumer k pc' :: rest) (s.primask core) := by
    intro pc' hnone
    refine hgo pc' ?_
    intro arm harm'
    rw [hnone] at harm'
    cases harm'
  have hafter : ∀ again, (State.afterInstall again).arm = none := by
    intro again
    cases again <;> rfl
  cases pc with
  | drain =>
    have hrec := hdequeue k.readyQueue (Or.inl rfl)
    simp only [State.consumerStep] at hs
    split at hs
    · split at hs
      · rename_i hmem
        have hin : ∀ arm, some answer.arm = some arm → arm ∈ k.arms := by
          rintro arm ⟨⟩
          exact hmem
        cases hkind : k.kind <;> rw [hkind] at hs <;> cases hs <;>
          exact hrec.setFrames (hgo _ hin)
      · cases hs
    · cases hkind : k.kind <;> rw [hkind] at hs <;> cases hs
      · exact hrec.setFrames (hcore.pop _)
      · exact hrec.setFrames (hfree _ rfl)
      · exact hrec.setFrames (hfree _ rfl)
  | install arm again =>
    simp only [State.consumerStep] at hs
    split at hs <;> cases hs
    · exact h.setFrames (hgo _ harm)
    · exact h.setFrames (hfree _ rfl)
  | take arm again =>
    have hrec := hdequeue arm.inputsQueue (Or.inr ⟨arm, harm arm rfl, rfl⟩)
    simp only [State.consumerStep] at hs
    cases hkind : k.kind <;> rw [hkind] at hs <;> cases hs
    · exact hrec.setFrames (hfree _ rfl)
    · exact hrec.setFrames (hfree _ (hafter again))
    · exact hrec.setFrames (hfree _ (hafter again))
  | defer again =>
    cases hs
    exact h.setFrames (hfree _ (hafter again))
  | exec =>
    cases hs
    exact h.setFrames (hfree _ rfl)
  | poll =>
    cases hs
    exact h.setFrames (hfree _ rfl)
  | collect =>
    simp only [State.consumerStep] at hs
    split at hs <;> cases hs
    · exact h
    · exact h.setFrames (hfree _ rfl)
  | reinstall =>
    simp only [State.consumerStep] at hs
    split at hs
    · split at hs <;> cases hs
      rename_i hmem
      refine h.setFrames (hgo _ ?_)
      rintro arm ⟨⟩
      exact hmem
    · cases hkind : k.kind <;> rw [hkind] at hs <;> cases hs
      · exact h.setFrames (hcore.pop _)
      · exact h.setFrames (hcore.pop _)
      · exact h.setFrames (hfree _ rfl)

/-- **One step.** -/
theorem Inv.step (h : Inv code s) (hid : ∀ c, currentCoreId c = c) {a : Action}
    (hs : step code currentCoreId s a = some s') : Inv code s' := by
  cases a with
  | call c fn => exact h.call hs
  | enter c k => exact h.enter hs
  | setPrimask c primask =>
    simp only [Producers.step] at hs
    split at hs
    · cases hs
    · -- no critical section is open, so the mask protects none
      rename_i hcrit
      cases hs
      refine h.setPrimask ⟨(h.cores c).ok, (h.cores c).innermost, ?_⟩
      rintro ⟨f, hf, hin⟩
      rw [State.critical_eq_false (by simpa using hcrit) f hf] at hin
      cases hin
  | step c answer =>
    simp only [Producers.step, State.go] at hs
    split at hs
    · cases hs
    · rename_i hframes
      cases hs
      exact h.spawnStep hid hframes
    · rename_i hframes
      exact h.consumerStep hframes hs

/-- **Every reachable state keeps the invariant.** -/
theorem inv (hid : ∀ c, currentCoreId c = c) (h : (machine code currentCoreId).Reachable s) :
    Inv code s := by
  refine h.invariant ?_ fun s a t _ hinv hst => hinv.step hid hst
  constructor
  · intro c
    refine ⟨?_, ?_, ?_⟩
    · intro f hf
      cases hf
    · intro f hf
      cases hf
    · rintro ⟨f, hf, _⟩
      cases hf
  · intro e he
    cases he

/-! ## One producer and one consumer -/

/--
What the two ends of a queue are used for in a run: the core `producer` enqueues, in its critical
section and either by `spawn` or by `cross_spawn` only, and one consumer dequeues, on its core.
-/
structure Discipline (log : List Event) (queue : Ident) (producer : Nat) (cross : Bool)
    (consumer : Consumer) : Prop where
  enqueues : ∀ e ∈ log, e.queue = queue → ∀ fn, e.access = .enqueue fn →
    e.core = producer ∧ e.masked = true ∧ fn.cross = cross
  dequeues : ∀ e ∈ log, e.queue = queue → ∀ k, e.access = .dequeue k →
    k = consumer ∧ e.core = consumer.core

/-- What the code says about a queue by its name. -/
structure Owned (code : Code) (queue : Ident) (producer : Nat) (cross : Bool)
    (consumer : Consumer) : Prop where
  spawns : ∀ fn ∈ code.spawns, (queue = fn.inputsQueue ∨ queue = fn.readyQueue) →
    fn.coreCheck = some producer ∧ fn.cross = cross
  consumers : ∀ k ∈ code.consumers, (queue = k.readyQueue ∨ ∃ arm ∈ k.arms, queue = arm.inputsQueue) →
    k = consumer

/-- **A queue that the code gives to one producer and one consumer keeps them.** -/
theorem Inv.discipline (h : Inv code s) {queue : Ident} {producer : Nat} {cross : Bool}
    {consumer : Consumer} (howned : Owned code queue producer cross consumer) :
    Discipline s.log queue producer cross consumer where
  enqueues := by
    intro e he hqueue fn hfn
    have hok := h.log e he
    unfold Event.Ok at hok
    rw [hfn, hqueue] at hok
    obtain ⟨hmem, hname, hmasked, hcheck⟩ := hok
    obtain ⟨hproducer, hcross⟩ := howned.spawns fn hmem hname
    exact ⟨(hcheck producer hproducer).symm, hmasked, hcross⟩
  dequeues := by
    intro e he hqueue k hk
    have hok := h.log e he
    unfold Event.Ok at hok
    rw [hk, hqueue] at hok
    obtain ⟨hmem, hcore, hname⟩ := hok
    cases howned.consumers k hmem hname
    exact ⟨rfl, hcore⟩

section Names

variable {tasks : List SoftwareTask} {task : SoftwareTask} {k : Consumer}

/-- Tasks of one group have one producer. -/
theorem producer_eq (h : Grouped tasks code) {task' : SoftwareTask} (htask : task ∈ tasks)
    (htask' : task' ∈ tasks) (hcore : task.params.core = task'.params.core)
    (hpriority : task.params.priority = task'.params.priority) :
    task'.producer = task.producer ∧ task'.cross = task.cross := by
  have hspawnBy := h.spawnBy task htask task' htask' hcore hpriority
  unfold SoftwareTask.producer SoftwareTask.cross
  rw [hcore, hspawnBy]
  exact ⟨rfl, rfl⟩

/-- The consumer of a group is the only one. -/
theorem consumer_unique (h : Grouped tasks code) {k k' : Consumer} (hk : k ∈ code.consumers)
    (hk' : k' ∈ code.consumers) (hcore : k.core = k'.core) (hpriority : k.priority = k'.priority) :
    k = k' :=
  List.inj_on_of_nodup_map h.groups hk hk' (Prod.ext hcore hpriority)

/-- **The ready queue of a group.** -/
theorem owned_readyQueue (h : Grouped tasks code) (htask : task ∈ tasks) (hk : k ∈ code.consumers)
    (hcore : k.core = task.params.core) (hpriority : k.priority = task.params.priority) :
    Owned code (task.generateSpawnApi true).readyQueue task.producer task.cross k where
  spawns := by
    intro fn hfn hname
    rw [h.spawns] at hfn
    obtain ⟨task', htask', rfl⟩ := List.mem_map.mp hfn
    rcases hname with hname | hname
    · exact absurd hname.symm inputs_ne_ready
    obtain ⟨hp, hc⟩ := readyQueue_inj hname
    obtain ⟨hproducer, hcross⟩ := producer_eq h htask htask' hc hp
    exact ⟨congrArg some hproducer, hcross⟩
  consumers := by
    intro k' hk' hname
    rcases hname with hname | ⟨arm, harm, hname⟩
    · rw [h.readyQueue k' hk'] at hname
      obtain ⟨hp, hc⟩ := readyQueue_inj hname
      exact consumer_unique h hk' hk (hc.symm.trans hcore.symm) (hp.symm.trans hpriority.symm)
    · obtain ⟨task', _, _, _, hinputs⟩ := h.arms k' hk' arm harm
      rw [hinputs] at hname
      exact absurd hname.symm inputs_ne_ready

/-- **The input queue of a task, where no two tasks have one.** -/
theorem owned_inputsQueue (h : Grouped tasks code)
    (hnodup : (code.spawns.map SpawnFn.inputsQueue).Nodup) (htask : task ∈ tasks)
    (hk : k ∈ code.consumers) (hcore : k.core = task.params.core)
    (hpriority : k.priority = task.params.priority) :
    Owned code (task.generateSpawnApi true).inputsQueue task.producer task.cross k where
  spawns := by
    intro fn hfn hname
    rcases hname with hname | hname
    · have hmem : task.generateSpawnApi true ∈ code.spawns := by
        rw [h.spawns]
        exact List.mem_map_of_mem htask
      rw [← List.inj_on_of_nodup_map hnodup hmem hfn hname]
      exact ⟨rfl, rfl⟩
    · rw [h.spawns] at hfn
      obtain ⟨task', _, rfl⟩ := List.mem_map.mp hfn
      exact absurd hname inputs_ne_ready
  consumers := by
    intro k' hk' hname
    rcases hname with hname | ⟨arm, harm, hname⟩
    · rw [h.readyQueue k' hk'] at hname
      exact absurd hname inputs_ne_ready
    · obtain ⟨task', htask', hc, hp, hinputs⟩ := h.arms k' hk' arm harm
      rw [hinputs] at hname
      -- the two tasks are spawned by one function, so they are of one group
      have hmem : ∀ t ∈ tasks, t.generateSpawnApi true ∈ code.spawns := by
        intro t ht
        rw [h.spawns]
        exact List.mem_map_of_mem ht
      have hfn := List.inj_on_of_nodup_map hnodup (hmem task htask) (hmem task' htask') hname
      obtain ⟨hp', hc'⟩ := readyQueue_inj (congrArg SpawnFn.readyQueue hfn)
      exact consumer_unique h hk' hk (by rw [← hc, ← hc', hcore]) (by rw [← hp, ← hp', hpriority])

end Names

end Rticx.SwPass.Producers
