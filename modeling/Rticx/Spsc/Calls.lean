import Rticx.Spsc.Concurrent

/-!
# Calls of the two halves

A caller of `enqueue` or `dequeue` sees none of the accesses of `Concurrent`, only whether the call
has returned and with what. `producer_cases` and `consumer_cases` say what an access is to the
caller, and what it does to the values outstanding.
-/

namespace Rticx.Spsc.Concurrent

open Lib

variable {T : Type} {DEPTH : Nat} {s t : State T DEPTH}

/-! ## What a call is about -/

/-- The data of the call the producer is in. -/
def Producer.data : Producer T → Option T
  | .idle => none
  | .loadWrite data | .loadRead data _ | .loadWriteUnchecked data | .storeSlot data _
  | .writing data _ | .loadInc data | .storeInc data _ => some data

/-- The producer is at the test of `enqueue`, which may still fail. -/
def Producer.tests : Producer T → Bool
  | .loadWrite _ | .loadRead _ _ => true
  | _ => false

/-- The consumer is at the test of `dequeue`, which may still fail. -/
def Consumer.tests : Consumer T → Bool
  | .loadWrite | .loadRead _ => true
  | _ => false

/-- The result of the call, once it has returned: whether the data was enqueued. -/
def Producer.returns : Producer T → Producer T → Option Bool
  | .storeInc _ _, .idle => some true
  | _, .idle => some false
  | _, _ => none

/-- The result of the call, once it has returned: what `dequeue` answers. -/
def Consumer.returns : Consumer T → Consumer T → Option (Option (Option T))
  | .storeInc v _, .idle => some (some v)
  | _, .idle => some none
  | _, _ => none

/-- The `dequeue` has found nothing and is about to say so. -/
def State.FoundNothing (s : State T DEPTH) : Prop := s.consumer.tests = true ∧
  s.consumer ≠ .loadWrite ∧ s.seen = 0

theorem Producer.data_eq_none {p : Producer T} : p.data = none ↔ p = .idle := by
  cases p <;> simp [Producer.data]

/-- A queue of any size keeps the invariant. -/
theorem inv_of_reachable (hD : 0 < DEPTH) (h : (machine T DEPTH).Reachable s) : Inv s := by
  have hinit : Inv (machine T DEPTH).init := ⟨Queue.new_holds hD, rfl, rfl, trivial, trivial⟩
  exact h.invariant hinit fun _ _ _ _ hi hs => inv_step hi hs

theorem reachable_step {a : Action T} (h : (machine T DEPTH).Reachable s) (hs : step s a = some t) :
    (machine T DEPTH).Reachable t :=
  h.step (a := a) hs

/-! ## The calls begin -/

theorem step_enqueue (data : T) (hidle : s.producer = .idle) :
    step s (.enqueue data) = some { s with producer := .loadWrite data } := by
  simp [step, hidle]

theorem step_enqueueUnchecked (data : T) (hidle : s.producer = .idle)
    (hroom : s.queue.isFull = false) :
    step s (.enqueueUnchecked data) = some { s with producer := .loadWriteUnchecked data } := by
  simp [step, hidle, hroom]

theorem step_dequeue (hidle : s.consumer = .idle) :
    step s .dequeue = some { s with consumer := .loadWrite } := by
  simp [step, hidle]

theorem step_dequeueUnchecked (hidle : s.consumer = .idle) (hne : s.queue.isEmpty = false) :
    step s .dequeueUnchecked = some { s with consumer := .loadReadUnchecked } := by
  simp [step, hidle, hne]

/-! ## The calls go on -/

/-- What an access of the producer is to its caller. -/
inductive Enqueueing (s t : State T DEPTH) : Prop where
  | goes (_ : s.producer.returns t.producer = none) (_ : t.producer.data = s.producer.data)
      (_ : s.producer.tests = false → t.producer.tests = false)
      (_ : t.outstanding = s.outstanding)
  | stored (data : T) (_ : s.producer.data = some data)
      (_ : s.producer.returns t.producer = some true) (_ : t.producer = .idle)
      (_ : t.outstanding = s.outstanding ++ [data])
  | full (_ : s.producer.tests = true) (_ : s.producer.returns t.producer = some false)
      (_ : t.producer = .idle) (_ : t.outstanding = s.outstanding)
      (_ : s.outstanding.length + 1 = DEPTH)

theorem producer_cases (h : Inv s) (hs : producerStep s = some t) :
    t.consumer = s.consumer ∧ t.seen = s.seen ∧ Enqueueing s t := by
  have hp := h.producer
  unfold producerStep at hs
  unfold ProducerInv at hp
  cases hpc : s.producer with
  | idle => rw [hpc] at hs; cases hs
  | loadRead data w =>
    rw [hpc] at hs hp
    subst hp
    simp only [bne_iff_ne, ne_eq, ite_not] at hs
    split at hs
    · next ht =>
      cases hs
      refine ⟨rfl, rfl, .full (by simp [hpc, Producer.tests]) (by simp [hpc, Producer.returns]) rfl
        rfl ?_⟩
      exact h.holds.isFull_iff.mp (by simpa [Queue.isFull] using ht)
    · cases hs
      exact ⟨rfl, rfl, .goes (by simp [hpc, Producer.returns]) (by simp [hpc, Producer.data])
        (by simp [hpc, Producer.tests]) rfl⟩
  | storeInc data w =>
    rw [hpc] at hs
    cases hs
    refine ⟨rfl, rfl, .stored data (by simp [hpc, Producer.data]) (by simp [hpc, Producer.returns])
      rfl ?_⟩
    exact List.drop_append_of_le_length h.dequeued_le
  | loadWrite data | loadWriteUnchecked data | storeSlot data i | writing data i | loadInc data =>
    rw [hpc] at hs
    cases hs
    exact ⟨rfl, rfl, .goes (by simp [hpc, Producer.returns]) (by simp [hpc, Producer.data])
      (by simp [hpc, Producer.tests]) rfl⟩

/-- What an access of the consumer is to its caller. -/
inductive Dequeueing (s t : State T DEPTH) : Prop where
  | goes (_ : s.consumer.returns t.consumer = none) (_ : t.consumer ≠ .idle)
      (_ : s.consumer.tests = false → t.consumer.tests = false)
      (_ : t.outstanding = s.outstanding) (_ : ¬ s.FoundNothing)
      (_ : t.FoundNothing ↔ s.consumer = .loadWrite ∧ s.outstanding = [])
  | taken (data : T) (_ : s.consumer.tests = false)
      (_ : s.consumer.returns t.consumer = some (some (some data))) (_ : t.consumer = .idle)
      (_ : s.outstanding = data :: t.outstanding)
  | empty (_ : s.consumer.tests = true) (_ : s.consumer.returns t.consumer = some none)
      (_ : t.consumer = .idle) (_ : t.outstanding = s.outstanding) (_ : s.FoundNothing)

theorem consumer_cases (h : Inv s) (hs : consumerStep s = some t) :
    t.producer = s.producer ∧ Dequeueing s t := by
  have hc := h.consumer
  have hl := h.writeIdx
  have hr := h.holds.room
  have hs' := hs
  unfold consumerStep at hs
  unfold ConsumerInv at hc
  cases hcc : s.consumer with
  | idle => rw [hcc] at hs; cases hs
  | loadWrite =>
    rw [hcc] at hs
    cases hs
    refine ⟨rfl, .goes (by simp [hcc, Consumer.returns]) (by simp) (by simp [hcc, Consumer.tests])
      rfl (by simp [State.FoundNothing, hcc]) ?_⟩
    simp [State.FoundNothing, Consumer.tests, hcc]
  | loadRead w =>
    rw [hcc] at hs hc
    obtain ⟨rfl, hseen⟩ := hc
    simp only [beq_iff_eq] at hs
    split at hs
    · next ht =>
      cases hs
      have hnone := Lib.Ring.eq_of_mod_eq (r := s.queue.readIdx) (le_refl _) (by omega) (by omega)
        (by omega) ht
      refine ⟨rfl, .empty (by simp [hcc, Consumer.tests]) (by simp [hcc, Consumer.returns]) rfl rfl
        ⟨by simp [hcc, Consumer.tests], by simp [hcc], by omega⟩⟩
    · next ht =>
      cases hs
      have hsome : s.seen ≠ 0 := fun hzero => ht (by simp [hzero])
      refine ⟨rfl, .goes (by simp [hcc, Consumer.returns]) (by simp) (by simp [Consumer.tests]) rfl
        (fun hnone => hsome hnone.2.2) ?_⟩
      simp [State.FoundNothing, Consumer.tests, hcc]
  | storeInc v r =>
    have ht := inv_consumerStep h hs'
    rw [hcc] at hs hc
    obtain ⟨rfl, hv⟩ := hc
    cases hs
    obtain ⟨x, l, hxl⟩ : ∃ x l, s.outstanding = x :: l := by
      cases ho : s.outstanding with
      | nil => rw [ho] at hv; cases hv
      | cons x l => exact ⟨x, l, rfl⟩
    rw [hxl] at hv
    obtain rfl : v = some x := (Option.some.inj hv).symm
    refine ⟨rfl, .taken x (by simp [hcc, Consumer.tests]) (by simp [hcc, Consumer.returns]) rfl ?_⟩
    rw [hxl]
    congr 1
    have := congrArg List.tail hxl
    rw [State.outstanding, List.tail_drop, List.tail_cons] at this
    simpa [State.outstanding] using this.symm
  | loadReadUnchecked | readSlot k | reading k | loadInc v =>
    rw [hcc] at hs
    cases hs
    refine ⟨rfl, .goes (by simp [hcc, Consumer.returns]) (by simp) (by simp [Consumer.tests]) rfl
      (by simp [State.FoundNothing, hcc, Consumer.tests]) ?_⟩
    simp [State.FoundNothing, Consumer.tests, hcc]

/-- What the producer does leaves a `dequeue` that has found nothing. -/
theorem foundNothing_congr (hc : t.consumer = s.consumer) (hseen : t.seen = s.seen) :
    t.FoundNothing ↔ s.FoundNothing := by
  simp [State.FoundNothing, hc, hseen]

/-! ## The accesses a call has left -/

def Consumer.left : Consumer T → Nat
  | .idle => 0
  | .storeInc _ _ => 1
  | .loadInc _ => 2
  | .reading _ => 3
  | .readSlot _ => 4
  | .loadReadUnchecked | .loadRead _ => 5
  | .loadWrite => 6

theorem consumerStep_left (hs : consumerStep s = some t) : t.consumer.left < s.consumer.left := by
  unfold consumerStep at hs
  cases hcc : s.consumer with
  | idle => rw [hcc] at hs; cases hs
  | loadRead w =>
    rw [hcc] at hs
    simp only at hs
    split at hs
    · cases hs
      simp [Consumer.left]
    · cases hs
      simp [Consumer.left]
  | loadWrite | loadReadUnchecked | readSlot k | reading k | loadInc v | storeInc v r =>
    rw [hcc] at hs
    cases hs
    simp [Consumer.left]

theorem exists_consumerStep (h : s.consumer ≠ .idle) : ∃ t, consumerStep s = some t := by
  unfold consumerStep
  cases hcc : s.consumer with
  | idle => exact absurd hcc h
  | loadRead w =>
    simp only
    split
    · exact ⟨_, rfl⟩
    · exact ⟨_, rfl⟩
  | loadWrite | loadReadUnchecked | readSlot k | reading k | loadInc v | storeInc v r =>
    exact ⟨_, rfl⟩

end Rticx.Spsc.Concurrent
