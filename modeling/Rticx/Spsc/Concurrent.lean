import Rticx.Lib.Fifo
import Rticx.Lib.Machine
import Rticx.Spsc.Queue

/-!
# The queue under interference

One `Producer` and one `Consumer` of a split queue, interleaved between any two accesses to
memory. `split` hands both halves the same queue and takes no lock, so each method is cut here
at every load and store of `read_idx`, `write_idx` and the slots:

* `enqueue` loads `write_idx`, then `read_idx`, and if there is room writes the slot and adds one
  to `write_idx` (a load and a store);
* `dequeue` loads `write_idx`, then `read_idx`, and if there is a value copies the slot and adds
  one to `read_idx`.

Writing or copying a slot is not one access, so each takes two steps, and a slot that is being
written holds no value. The method counts as done at the store of its index: only then can the
other half see its effect.
-/

namespace Rticx.Spsc.Concurrent

open Lib

variable {T : Type} {DEPTH : Nat}

/-! ## The two halves -/

/-- Where the producer is in `enqueue` or `enqueue_unchecked`. -/
inductive Producer (T : Type) where
  | idle
  /-- `let w = self.write_idx` -/
  | loadWrite (data : T)
  /-- `((w + 1) % DEPTH) != (self.read_idx % DEPTH)` -/
  | loadRead (data : T) (w : Nat)
  /-- `enqueue_unchecked`: the load of `self.write_idx` for the slot -/
  | loadWriteUnchecked (data : T)
  /-- before `self.buffer[i % DEPTH].write(data)` -/
  | storeSlot (data : T) (i : Nat)
  /-- inside that write -/
  | writing (data : T) (i : Nat)
  /-- the load of `self.write_idx += 1` -/
  | loadInc (data : T)
  /-- the store of `self.write_idx += 1` -/
  | storeInc (data : T) (w : Nat)
  deriving DecidableEq

/-- Where the consumer is in `dequeue` or `dequeue_unchecked`. -/
inductive Consumer (T : Type) where
  | idle
  /-- `let w = self.write_idx % DEPTH` -/
  | loadWrite
  /-- `let r = self.read_idx % DEPTH`, and the test `r == w` -/
  | loadRead (w : Nat)
  /-- `dequeue_unchecked`: the load of `self.read_idx` for the slot -/
  | loadReadUnchecked
  /-- before `self.buffer[k].assume_init_read()` -/
  | readSlot (k : Nat)
  /-- inside that copy -/
  | reading (k : Nat)
  /-- the load of `self.read_idx += 1`; `v` is `none` if the bytes copied were no value -/
  | loadInc (v : Option T)
  /-- the store of `self.read_idx += 1` -/
  | storeInc (v : Option T) (r : Nat)
  deriving DecidableEq

/-- The slot the producer is about to write or is writing. -/
def Producer.writes (DEPTH : Nat) : Producer T → Option Nat
  | .storeSlot _ i | .writing _ i => some (i % DEPTH)
  | _ => none

/-- The slot the consumer is about to copy or is copying. -/
def Consumer.reads : Consumer T → Option Nat
  | .readSlot k | .reading k => some k
  | _ => none

/--
The memory, the two halves, and the history: the values of the finished enqueues and dequeues in
order, the values handed back by `Err`, the number of `None`s, and how many values were
outstanding when the current `dequeue` loaded `write_idx`.
-/
structure State (T : Type) (DEPTH : Nat) where
  queue : Queue T DEPTH
  producer : Producer T
  consumer : Consumer T
  enqueued : List T
  dequeued : List (Option T)
  rejected : List T
  emptied : Nat
  seen : Nat

/-- The values enqueued and not yet dequeued. -/
def State.outstanding (s : State T DEPTH) : List T := s.enqueued.drop s.dequeued.length

/-- Calls of the two halves, and one access of each. -/
inductive Action (T : Type) where
  | enqueue (data : T)
  | enqueueUnchecked (data : T)
  | producer
  | dequeue
  | dequeueUnchecked
  | consumer
  deriving DecidableEq

/-! ## Accesses -/

/-- The next access of the producer. -/
def producerStep (s : State T DEPTH) : Option (State T DEPTH) :=
  match s.producer with
  | .idle => none
  | .loadWrite data => some { s with producer := .loadRead data s.queue.writeIdx }
  | .loadRead data w =>
    if (w + 1) % DEPTH != s.queue.readIdx % DEPTH then
      some { s with producer := .storeSlot data w }
    else
      some { s with producer := .idle, rejected := s.rejected ++ [data] }
  | .loadWriteUnchecked data => some { s with producer := .storeSlot data s.queue.writeIdx }
  | .storeSlot data i =>
    some { s with
      producer := .writing data i
      queue := { s.queue with buffer := s.queue.buffer.setIfInBounds (i % DEPTH) none } }
  | .writing data i =>
    some { s with
      producer := .loadInc data
      queue := { s.queue with buffer := s.queue.buffer.setIfInBounds (i % DEPTH) (some data) } }
  | .loadInc data => some { s with producer := .storeInc data s.queue.writeIdx }
  | .storeInc data w =>
    some { s with
      producer := .idle
      queue := { s.queue with writeIdx := w + 1 }
      enqueued := s.enqueued ++ [data] }

/-- The next access of the consumer. -/
def consumerStep (s : State T DEPTH) : Option (State T DEPTH) :=
  match s.consumer with
  | .idle => none
  | .loadWrite =>
    some { s with
      consumer := .loadRead (s.queue.writeIdx % DEPTH), seen := s.outstanding.length }
  | .loadRead w =>
    if s.queue.readIdx % DEPTH == w then
      some { s with consumer := .idle, emptied := s.emptied + 1 }
    else
      some { s with consumer := .readSlot (s.queue.readIdx % DEPTH) }
  | .loadReadUnchecked => some { s with consumer := .readSlot (s.queue.readIdx % DEPTH) }
  | .readSlot k => some { s with consumer := .reading k }
  | .reading k => some { s with consumer := .loadInc (s.queue.buffer[k]?).join }
  | .loadInc v => some { s with consumer := .storeInc v s.queue.readIdx }
  | .storeInc v r =>
    some { s with
      consumer := .idle
      queue := { s.queue with readIdx := r + 1 }
      dequeued := s.dequeued ++ [v] }

/--
The queue with its two halves. The unchecked methods are only called where their safety sections
allow it: `enqueue_unchecked` on a queue that is not full, `dequeue_unchecked` on one that is not
empty.
-/
def step (s : State T DEPTH) : Action T → Option (State T DEPTH)
  | .enqueue data =>
    match s.producer with
    | .idle => some { s with producer := .loadWrite data }
    | _ => none
  | .enqueueUnchecked data =>
    match s.producer with
    | .idle =>
      if s.queue.isFull then none else some { s with producer := .loadWriteUnchecked data }
    | _ => none
  | .producer => producerStep s
  | .dequeue =>
    match s.consumer with
    | .idle => some { s with consumer := .loadWrite }
    | _ => none
  | .dequeueUnchecked =>
    match s.consumer with
    | .idle => if s.queue.isEmpty then none else some { s with consumer := .loadReadUnchecked }
    | _ => none
  | .consumer => consumerStep s

/-- A split queue that was just created. -/
def machine (T : Type) (DEPTH : Nat) : Machine (State T DEPTH) (Action T) where
  init :=
    { queue := Queue.new, producer := .idle, consumer := .idle
      enqueued := [], dequeued := [], rejected := [], emptied := 0, seen := 0 }
  step := step

/-! ## The invariant -/

/-- What the producer may rely on between two of its accesses. -/
def ProducerInv (s : State T DEPTH) : Prop :=
  match s.producer with
  | .idle | .loadWrite _ => True
  | .loadRead _ w => w = s.queue.writeIdx
  | .loadWriteUnchecked _ => s.outstanding.length + 1 < DEPTH
  | .storeSlot _ i | .writing _ i => i = s.queue.writeIdx ∧ s.outstanding.length + 1 < DEPTH
  | .loadInc data =>
    s.queue.slot s.queue.writeIdx = some data ∧ s.outstanding.length + 1 < DEPTH
  | .storeInc data w =>
    w = s.queue.writeIdx ∧ s.queue.slot s.queue.writeIdx = some data ∧
      s.outstanding.length + 1 < DEPTH

/--
What the consumer may rely on between two of its accesses. The `write_idx` it loaded may be
stale, but it never overtakes the real one and never falls behind `read_idx`.
-/
def ConsumerInv (s : State T DEPTH) : Prop :=
  match s.consumer with
  | .idle | .loadWrite => True
  | .loadRead w =>
    w = (s.queue.readIdx + s.seen) % DEPTH ∧ s.seen ≤ s.outstanding.length
  | .loadReadUnchecked => s.outstanding ≠ []
  | .readSlot k | .reading k => k = s.queue.readIdx % DEPTH ∧ s.outstanding ≠ []
  | .loadInc v => s.outstanding.head?.map some = some v
  | .storeInc v r => r = s.queue.readIdx ∧ s.outstanding.head?.map some = some v

/-- The invariant of the two halves. -/
structure Inv (s : State T DEPTH) : Prop where
  holds : s.queue.Holds s.outstanding
  readIdx : s.queue.readIdx = s.dequeued.length
  taken : s.dequeued = (s.enqueued.take s.dequeued.length).map some
  producer : ProducerInv s
  consumer : ConsumerInv s

theorem Inv.dequeued_le {s : State T DEPTH} (h : Inv s) :
    s.dequeued.length ≤ s.enqueued.length := by
  have := congrArg List.length h.taken
  simp only [List.length_map, List.length_take] at this
  omega

theorem Inv.writeIdx {s : State T DEPTH} (h : Inv s) :
    s.queue.writeIdx = s.queue.readIdx + s.outstanding.length := h.holds.length

theorem inv_init (hD : 2 ≤ DEPTH) : Inv (machine T DEPTH).init where
  holds := Queue.new_holds (by omega)
  readIdx := rfl
  taken := rfl
  producer := trivial
  consumer := trivial

/-! ## Every access keeps the invariant -/

/-- Only the producer's place changes. -/
theorem Inv.at_producer {s : State T DEPTH} (h : Inv s) {p : Producer T}
    (hp : ProducerInv { s with producer := p }) : Inv { s with producer := p } :=
  ⟨h.holds, h.readIdx, h.taken, hp, h.consumer⟩

/-- Only the consumer's place changes. -/
theorem Inv.at_consumer {s : State T DEPTH} (h : Inv s) {c : Consumer T}
    (hc : ConsumerInv { s with consumer := c }) : Inv { s with consumer := c } :=
  ⟨h.holds, h.readIdx, h.taken, h.producer, hc⟩

/-- The full test passes only if a slot is left, whatever the consumer does meanwhile. -/
theorem Inv.room_of_test {s : State T DEPTH} (h : Inv s)
    (ht : ¬ (s.queue.writeIdx + 1) % DEPTH = s.queue.readIdx % DEPTH) :
    s.outstanding.length + 1 < DEPTH := by
  have hr := h.holds.room
  have hne : s.outstanding.length + 1 ≠ DEPTH := by
    intro hfull
    have := h.holds.isFull_iff.mpr hfull
    rw [Queue.isFull, beq_iff_eq] at this
    exact ht this
  omega

/-- Writing the free slot leaves everything else as it is. -/
theorem Inv.write {s : State T DEPTH} (h : Inv s) (v : Option T) {p : Producer T}
    (hp : ProducerInv { s with producer := p, queue := s.queue.setSlot s.queue.writeIdx v }) :
    Inv { s with producer := p, queue := s.queue.setSlot s.queue.writeIdx v } :=
  ⟨h.holds.setSlot v, h.readIdx, h.taken, hp, h.consumer⟩

/-- Appending an outstanding value is invisible to the consumer's bookkeeping. -/
theorem Inv.consumer_append {s : State T DEPTH} (hle : Inv s) {q : Queue T DEPTH}
    (hq : q.readIdx = s.queue.readIdx) (p : Producer T) (x : T) :
    ConsumerInv { s with queue := q, producer := p, enqueued := s.enqueued ++ [x] } := by
  have hout : ({ s with queue := q, producer := p, enqueued := s.enqueued ++ [x] } :
      State T DEPTH).outstanding = s.outstanding ++ [x] := by
    simp only [State.outstanding]
    rw [List.drop_append_of_le_length hle.dequeued_le]
  have hhead : ∀ v, s.outstanding.head?.map some = some v →
      (s.outstanding ++ [x]).head?.map some = some v := by
    intro v hv
    cases ho : s.outstanding with
    | nil => rw [ho] at hv; simp at hv
    | cons y l => rw [ho] at hv; simpa using hv
  have h := hle.consumer
  unfold ConsumerInv at h ⊢
  simp only [hout, hq]
  cases hc : s.consumer with
  | idle | loadWrite => trivial
  | loadRead w =>
    rw [hc] at h
    exact ⟨h.1, by simp only [List.length_append]; omega⟩
  | loadReadUnchecked => simp
  | readSlot k | reading k => rw [hc] at h; exact ⟨h.1, by simp⟩
  | loadInc v => rw [hc] at h; exact hhead v h
  | storeInc v r => rw [hc] at h; exact ⟨h.1, hhead v h.2⟩

/-- Taking an outstanding value only makes room for the producer. -/
theorem Inv.producer_take {s : State T DEPTH} (hle : Inv s) {c : Consumer T} {n : Nat}
    {d : List (Option T)} (hd : s.dequeued.length ≤ d.length) :
    ProducerInv { s with queue := { s.queue with readIdx := n }, consumer := c, dequeued := d } := by
  have hroom : s.outstanding.length + 1 < DEPTH →
      (s.enqueued.drop d.length).length + 1 < DEPTH := by
    simp only [State.outstanding, List.length_drop]
    omega
  have h := hle.producer
  unfold ProducerInv at h ⊢
  cases hp : s.producer with
  | idle | loadWrite data => trivial
  | loadRead data w => rw [hp] at h; exact h
  | loadWriteUnchecked data => rw [hp] at h; exact hroom h
  | storeSlot data i | writing data i => rw [hp] at h; exact ⟨h.1, hroom h.2⟩
  | loadInc data => rw [hp] at h; exact ⟨h.1, hroom h.2⟩
  | storeInc data w => rw [hp] at h; exact ⟨h.1, h.2.1, hroom h.2.2⟩

theorem inv_producerStep {s t : State T DEPTH} (h : Inv s) (hs : producerStep s = some t) :
    Inv t := by
  have hp := h.producer
  unfold producerStep at hs
  unfold ProducerInv at hp
  cases hpc : s.producer with
  | idle => rw [hpc] at hs; cases hs
  | loadWrite data =>
    rw [hpc] at hs; cases hs
    exact h.at_producer rfl
  | loadRead data w =>
    rw [hpc] at hs hp
    subst hp
    simp only [bne_iff_ne, ne_eq, ite_not] at hs
    split at hs
    · cases hs
      exact ⟨h.holds, h.readIdx, h.taken, trivial, h.consumer⟩
    · next ht =>
      cases hs
      exact h.at_producer ⟨rfl, h.room_of_test ht⟩
  | loadWriteUnchecked data =>
    rw [hpc] at hs hp; cases hs
    exact h.at_producer ⟨rfl, hp⟩
  | storeSlot data i =>
    rw [hpc] at hs hp
    obtain ⟨rfl, hroom⟩ := hp
    cases hs
    exact h.write none ⟨rfl, hroom⟩
  | writing data i =>
    rw [hpc] at hs hp
    obtain ⟨rfl, hroom⟩ := hp
    cases hs
    refine h.write (some data) ⟨?_, hroom⟩
    show (s.queue.setSlot s.queue.writeIdx (some data)).slot s.queue.writeIdx = some data
    rw [Queue.slot_setSlot _ _ _ _ (by omega), if_pos rfl]
  | loadInc data =>
    rw [hpc] at hs hp; cases hs
    exact h.at_producer ⟨rfl, hp⟩
  | storeInc data w =>
    rw [hpc] at hs hp
    obtain ⟨rfl, hslot, hroom⟩ := hp
    cases hs
    refine ⟨?_, h.readIdx, ?_, trivial, h.consumer_append rfl .idle data⟩
    · have := h.holds.publish hroom hslot
      simpa only [State.outstanding, List.drop_append_of_le_length h.dequeued_le] using this
    · show s.dequeued = ((s.enqueued ++ [data]).take s.dequeued.length).map some
      rw [List.take_append_of_le_length h.dequeued_le]
      exact h.taken

theorem inv_consumerStep {s t : State T DEPTH} (h : Inv s) (hs : consumerStep s = some t) :
    Inv t := by
  have hc := h.consumer
  have hl := h.writeIdx
  unfold consumerStep at hs
  unfold ConsumerInv at hc
  cases hcc : s.consumer with
  | idle => rw [hcc] at hs; cases hs
  | loadWrite =>
    rw [hcc] at hs; cases hs
    exact ⟨h.holds, h.readIdx, h.taken, h.producer, by rw [hl], le_refl _⟩
  | loadRead w =>
    rw [hcc] at hs hc
    obtain ⟨rfl, hseen⟩ := hc
    simp only [beq_iff_eq] at hs
    split at hs
    · cases hs
      exact ⟨h.holds, h.readIdx, h.taken, h.producer, trivial⟩
    · next ht =>
      cases hs
      refine h.at_consumer ⟨rfl, ?_⟩
      -- something was outstanding at the load, and only this half can have taken it
      intro hnil
      rw [show s.outstanding = [] from hnil] at hseen
      exact ht (by rw [Nat.le_zero.mp hseen]; rfl)
  | loadReadUnchecked =>
    rw [hcc] at hs hc; cases hs
    exact h.at_consumer ⟨rfl, hc⟩
  | readSlot k =>
    rw [hcc] at hs hc; cases hs
    exact h.at_consumer hc
  | reading k =>
    rw [hcc] at hs hc
    obtain ⟨rfl, hne⟩ := hc
    cases hs
    refine h.at_consumer ?_
    show s.outstanding.head?.map some = some (s.queue.slot s.queue.readIdx)
    obtain ⟨x, l, hxl⟩ := List.exists_cons_of_ne_nil hne
    have hslot : s.queue.slot s.queue.readIdx = some x := h.holds.slots 0 x (by rw [hxl]; rfl)
    rw [hxl, hslot]
    rfl
  | loadInc v =>
    rw [hcc] at hs hc; cases hs
    exact h.at_consumer ⟨rfl, hc⟩
  | storeInc v r =>
    rw [hcc] at hs hc
    obtain ⟨rfl, hv⟩ := hc
    cases hs
    -- what was read is the oldest outstanding element
    obtain ⟨x, l, hxl⟩ : ∃ x l, s.outstanding = x :: l := by
      cases ho : s.outstanding with
      | nil => rw [ho] at hv; cases hv
      | cons x l => exact ⟨x, l, rfl⟩
    rw [hxl] at hv
    have hvx : v = some x := (Option.some.inj hv).symm
    subst hvx
    have hget : s.enqueued[s.dequeued.length]? = some x := by
      rw [← Nat.add_zero s.dequeued.length, ← List.getElem?_drop]
      exact congrArg (·[0]?) hxl
    have hdrop : s.enqueued.drop (s.dequeued ++ [some x]).length = l := by
      have := congrArg List.tail hxl
      rw [State.outstanding, List.tail_drop, List.tail_cons] at this
      simpa using this
    refine ⟨?_, ?_, ?_, h.producer_take (by simp), trivial⟩
    · have hh := h.holds
      rw [hxl] at hh
      rw [State.outstanding, hdrop]
      exact hh.dequeueUnchecked.2
    · simp [h.readIdx]
    · show s.dequeued ++ [some x] =
        (s.enqueued.take (s.dequeued ++ [some x]).length).map some
      rw [List.length_append, List.length_singleton, List.take_add_one, hget, List.map_append,
        ← h.taken]
      rfl

theorem inv_step {s t : State T DEPTH} {a : Action T} (h : Inv s) (hs : step s a = some t) :
    Inv t := by
  cases a with
  | enqueue data =>
    simp only [step] at hs
    split at hs
    · cases hs
      exact h.at_producer trivial
    · cases hs
  | enqueueUnchecked data =>
    simp only [step] at hs
    split at hs
    · split at hs
      · cases hs
      · next hfull =>
        cases hs
        refine h.at_producer (h.room_of_test ?_)
        simpa [Queue.isFull] using hfull
    · cases hs
  | producer => exact inv_producerStep h hs
  | dequeue =>
    simp only [step] at hs
    split at hs
    · cases hs
      exact h.at_consumer trivial
    · cases hs
  | dequeueUnchecked =>
    simp only [step] at hs
    split at hs
    · split at hs
      · cases hs
      · next hempty =>
        cases hs
        exact h.at_consumer fun hnil => hempty (h.holds.isEmpty_iff.mpr hnil)
    · cases hs
  | consumer => exact inv_consumerStep h hs

theorem inv_reachable (hD : 2 ≤ DEPTH) {s : State T DEPTH}
    (h : (machine T DEPTH).Reachable s) : Inv s :=
  h.invariant (inv_init hD) fun _ _ _ _ hi hs => inv_step hi hs

/-! ## What follows -/

theorem Inv.dequeued_prefix {s : State T DEPTH} (h : Inv s) :
    s.dequeued <+: s.enqueued.map some := by
  rw [h.taken]
  exact (List.take_prefix _ _).map some

/-- The slot of an undelivered value holds that value. -/
theorem Inv.slot_undelivered {s : State T DEPTH} (h : Inv s) {i : Nat}
    (hi : s.dequeued.length ≤ i) {x : T} (hx : s.enqueued[i]? = some x) :
    s.queue.slot i = some x := by
  have := h.holds.slots (i - s.dequeued.length) x (by
    rw [State.outstanding, List.getElem?_drop, Nat.add_sub_cancel' hi, hx])
  rwa [h.readIdx, Nat.add_sub_cancel' hi] at this

/-- The producer only writes where no undelivered value is. -/
theorem Inv.writes_free {s : State T DEPTH} (h : Inv s) {k : Nat}
    (hk : s.producer.writes DEPTH = some k) {i : Nat} (hi : s.dequeued.length ≤ i)
    (hlt : i < s.enqueued.length) : i % DEPTH ≠ k := by
  have hl := h.writeIdx
  have hr := h.holds.room
  have hri := h.readIdx
  have hout : s.outstanding.length = s.enqueued.length - s.dequeued.length := List.length_drop
  have hw : k = s.queue.writeIdx % DEPTH := by
    have hp := h.producer
    unfold ProducerInv at hp
    unfold Producer.writes at hk
    cases hpc : s.producer <;> rw [hpc] at hk hp <;> simp only [reduceCtorEq, Option.some.injEq] at hk
    all_goals rw [← hk, hp.1]
  rw [hw]
  exact (Lib.Ring.mod_ne_of_occupied (r := s.queue.readIdx) (by omega) (by omega) (by omega)).symm

/-- The consumer only copies the slot of the oldest undelivered value. -/
theorem Inv.reads_head {s : State T DEPTH} (h : Inv s) {k : Nat}
    (hk : s.consumer.reads = some k) :
    k = s.dequeued.length % DEPTH ∧ s.dequeued.length < s.enqueued.length := by
  have hc := h.consumer
  unfold ConsumerInv at hc
  unfold Consumer.reads at hk
  cases hcc : s.consumer <;> rw [hcc] at hk hc <;> simp only [reduceCtorEq, Option.some.injEq] at hk
  all_goals
    obtain ⟨hkr, hne⟩ := hc
    refine ⟨by rw [← hk, hkr, h.readIdx], ?_⟩
    have hpos := List.length_pos_iff.mpr hne
    rw [State.outstanding, List.length_drop] at hpos
    omega

/-- What an access can add to the history. -/
inductive Effect (s t : State T DEPTH) : Prop where
  | quiet (_ : t.enqueued = s.enqueued) (_ : t.dequeued = s.dequeued)
      (_ : t.rejected = s.rejected) (_ : t.emptied = s.emptied)
  | enqueued {data : T} {w : Nat} (_ : s.producer = .storeInc data w)
      (_ : t.enqueued = s.enqueued ++ [data]) (_ : t.dequeued = s.dequeued)
      (_ : t.rejected = s.rejected) (_ : t.emptied = s.emptied)
  | dequeued {v : Option T} {r : Nat} (_ : s.consumer = .storeInc v r)
      (_ : t.enqueued = s.enqueued) (_ : t.dequeued = s.dequeued ++ [v])
      (_ : t.rejected = s.rejected) (_ : t.emptied = s.emptied)
  | rejected {data : T} {w : Nat} (_ : s.producer = .loadRead data w)
      (_ : (w + 1) % DEPTH = s.queue.readIdx % DEPTH)
      (_ : t = { s with producer := .idle, rejected := s.rejected ++ [data] })
  | emptied {w : Nat} (_ : s.consumer = .loadRead w) (_ : s.queue.readIdx % DEPTH = w)
      (_ : t = { s with consumer := .idle, emptied := s.emptied + 1 })

theorem step_effect {s t : State T DEPTH} {a : Action T} (hs : step s a = some t) :
    Effect s t := by
  cases a with
  | enqueue data | dequeue =>
    simp only [step] at hs
    split at hs <;> cases hs
    exact .quiet rfl rfl rfl rfl
  | enqueueUnchecked data | dequeueUnchecked =>
    simp only [step] at hs
    split at hs
    · split at hs <;> cases hs
      exact .quiet rfl rfl rfl rfl
    · cases hs
  | producer =>
    simp only [step, producerStep] at hs
    split at hs
    case h_8 data w hp => cases hs; exact .enqueued hp rfl rfl rfl rfl
    case h_3 data w hp =>
      split at hs
      · cases hs; exact .quiet rfl rfl rfl rfl
      · next ht => cases hs; exact .rejected hp (by simpa using ht) rfl
    all_goals cases hs
    all_goals exact .quiet rfl rfl rfl rfl
  | consumer =>
    simp only [step, consumerStep] at hs
    split at hs
    case h_8 v r hc => cases hs; exact .dequeued hc rfl rfl rfl rfl
    case h_3 w hc =>
      split at hs
      · next ht => cases hs; exact .emptied hc (by simpa using ht) rfl
      · cases hs; exact .quiet rfl rfl rfl rfl
    all_goals cases hs
    all_goals exact .quiet rfl rfl rfl rfl

/-- **Every access is invisible to the other half or one operation of a bounded queue.** -/
theorem Inv.step_fifo {s t : State T DEPTH} {a : Action T} (h : Inv s)
    (hs : step s a = some t) : Fifo.Step (DEPTH - 1) s.outstanding t.outstanding := by
  have skip : t.enqueued = s.enqueued → t.dequeued = s.dequeued →
      Fifo.Step (DEPTH - 1) s.outstanding t.outstanding := by
    intro he hd
    rw [State.outstanding, State.outstanding, he, hd]
    exact .skip _
  cases step_effect hs with
  | quiet he hd _ _ => exact skip he hd
  | rejected _ _ ht | emptied _ _ ht => subst ht; exact skip rfl rfl
  | @enqueued data w hp he hd _ _ =>
    have hroom := h.producer
    rw [ProducerInv, hp] at hroom
    have hout : t.outstanding = s.outstanding ++ [data] := by
      rw [State.outstanding, he, hd, List.drop_append_of_le_length h.dequeued_le, State.outstanding]
    rw [hout]
    exact .push data (by omega)
  | dequeued hc he hd _ _ =>
    have hne : s.outstanding ≠ [] := by
      have hh := h.consumer
      rw [ConsumerInv, hc] at hh
      intro hnil
      simp [hnil] at hh
    obtain ⟨x, l, hxl⟩ := List.exists_cons_of_ne_nil hne
    have hout : t.outstanding = l := by
      have := congrArg List.tail hxl
      rw [State.outstanding, List.tail_drop, List.tail_cons] at this
      rw [State.outstanding, he, hd]
      simpa using this
    rw [hout, hxl]
    exact .pop x l

/-- **`Err(data)` means full.** It hands back the data of the call and changes nothing. -/
theorem Inv.full_of_rejected {s t : State T DEPTH} {a : Action T} (h : Inv s)
    (hs : step s a = some t) (hr : t.rejected ≠ s.rejected) :
    ∃ data w, s.producer = .loadRead data w ∧ t.rejected = s.rejected ++ [data] ∧
      s.outstanding.length = DEPTH - 1 ∧ t.queue = s.queue := by
  cases step_effect hs with
  | quiet _ _ hr' _ | enqueued _ _ _ hr' _ | dequeued _ _ _ hr' _ => exact absurd hr' hr
  | emptied _ _ ht => subst ht; exact absurd rfl hr
  | @rejected data w hp hfull ht =>
    subst ht
    have hw := h.producer
    rw [ProducerInv, hp] at hw
    subst hw
    have := h.holds.isFull_iff.mp (by simpa [Queue.isFull] using hfull)
    exact ⟨data, _, hp, rfl, by omega, rfl⟩

/-- **`None` means empty** at the moment `write_idx` was loaded. -/
theorem Inv.empty_of_emptied {s t : State T DEPTH} {a : Action T} (h : Inv s)
    (hs : step s a = some t) (he : t.emptied ≠ s.emptied) : s.seen = 0 := by
  cases step_effect hs with
  | quiet _ _ _ he' | enqueued _ _ _ _ he' | dequeued _ _ _ _ he' => exact absurd he' he
  | rejected _ _ ht => subst ht; exact absurd rfl he
  | emptied hc hempty _ =>
    have hw := h.consumer
    rw [ConsumerInv, hc] at hw
    obtain ⟨rfl, hseen⟩ := hw
    have hr := h.holds.room
    have := Lib.Ring.eq_of_mod_eq (r := s.queue.readIdx) (le_refl _) (by omega) (by omega)
      (by omega) hempty
    omega

/-! ## Calls that are not interrupted

With nothing in between, the accesses of a call amount to the method of `Queue`.
-/

theorem enqueue_alone (s : State T DEPTH) (data : T) (hidle : s.producer = .idle)
    (hroom : s.queue.isFull = false) :
    (machine T DEPTH).exec s (.enqueue data :: List.replicate 6 .producer) =
      some { s with
        queue := s.queue.enqueueUnchecked data, enqueued := s.enqueued ++ [data] } := by
  have hfull : ¬ (s.queue.writeIdx + 1) % DEPTH = s.queue.readIdx % DEPTH := by
    simpa [Queue.isFull] using hroom
  obtain ⟨q, p, c, e, d, r, m, n⟩ := s
  subst hidle
  simp [List.replicate, Machine.exec_cons, machine, step, producerStep, hfull,
    Queue.enqueueUnchecked]

theorem enqueue_alone_full (s : State T DEPTH) (data : T) (hidle : s.producer = .idle)
    (hfull : s.queue.isFull = true) :
    (machine T DEPTH).exec s [.enqueue data, .producer, .producer] =
      some { s with rejected := s.rejected ++ [data] } := by
  have hfull : (s.queue.writeIdx + 1) % DEPTH = s.queue.readIdx % DEPTH := by
    simpa [Queue.isFull] using hfull
  obtain ⟨q, p, c, e, d, r, m, n⟩ := s
  subst hidle
  simp [Machine.exec_cons, machine, step, producerStep, hfull]

theorem dequeue_alone (s : State T DEPTH) (hidle : s.consumer = .idle)
    (hne : s.queue.isEmpty = false) :
    (machine T DEPTH).exec s (.dequeue :: List.replicate 6 .consumer) =
      some { s with
        queue := s.queue.dequeueUnchecked.2, dequeued := s.dequeued ++ [s.queue.dequeueUnchecked.1]
        seen := s.outstanding.length } := by
  have hne : ¬ s.queue.readIdx % DEPTH = s.queue.writeIdx % DEPTH := by
    simpa [Queue.isEmpty] using hne
  obtain ⟨q, p, c, e, d, r, m, n⟩ := s
  subst hidle
  simp [List.replicate, Machine.exec_cons, machine, step, consumerStep, hne,
    Queue.dequeueUnchecked, Queue.slot, State.outstanding]

/-! ## The queue in every interleaving -/

/-- The producer has not written anything yet in its current call. -/
def Producer.onlyRead : Producer T → Bool
  | .idle | .loadWrite _ | .loadRead _ _ => true
  | _ => false

/-- The actions of the producer's half. -/
def Action.byProducer : Action T → Bool
  | .enqueue _ | .enqueueUnchecked _ | .producer => true
  | _ => false

theorem queue_of_onlyRead {s t : State T DEPTH} {a : Action T} (ha : a.byProducer = true)
    (hp : s.producer.onlyRead = true) (hs : step s a = some t) : t.queue = s.queue := by
  cases a with
  | enqueue data | enqueueUnchecked data =>
    simp only [step] at hs
    repeat' split at hs
    all_goals cases hs
    all_goals rfl
  | producer =>
    simp only [step, producerStep] at hs
    cases hpc : s.producer <;> rw [hpc] at hs hp
    case loadRead data w => simp only at hs; split at hs <;> cases hs <;> rfl
    case idle => cases hs
    case loadWrite data => cases hs; rfl
    all_goals cases hp
  | dequeue | dequeueUnchecked | consumer => cases ha

/--
**The queue is a linearizable FIFO without locks.** In every state of every interleaving of the
accesses of the two halves:

* what was dequeued is a prefix of what was enqueued, and at most `DEPTH - 1` values are between;
* the slot the consumer copies holds the oldest undelivered value and is not being written;
* the slot the producer writes is that of no undelivered value;
* each access is invisible or one operation of a FIFO of capacity `DEPTH - 1`; `Err(data)` is
  only returned with `DEPTH - 1` values outstanding, by a call that has only read, and `None`
  only when no value was outstanding at the load of `write_idx`.
-/
theorem spsc_linearizable (hD : 2 ≤ DEPTH) {s : State T DEPTH}
    (h : (machine T DEPTH).Reachable s) :
    s.dequeued <+: s.enqueued.map some ∧
    s.enqueued.length - s.dequeued.length ≤ DEPTH - 1 ∧
    (∀ k, s.consumer.reads = some k →
      s.producer.writes DEPTH ≠ some k ∧
        ∃ x, s.enqueued[s.dequeued.length]? = some x ∧ (s.queue.buffer[k]?).join = some x) ∧
    (∀ k, s.producer.writes DEPTH = some k →
      ∀ i, s.dequeued.length ≤ i → i < s.enqueued.length → i % DEPTH ≠ k) ∧
    ∀ a t, step s a = some t →
      Fifo.Step (DEPTH - 1) s.outstanding t.outstanding ∧
      (t.rejected ≠ s.rejected → ∃ data w, s.producer = .loadRead data w ∧
        t.rejected = s.rejected ++ [data] ∧
        s.enqueued.length - s.dequeued.length = DEPTH - 1 ∧ t.queue = s.queue) ∧
      (a.byProducer = true → s.producer.onlyRead = true → t.queue = s.queue) ∧
      (t.emptied ≠ s.emptied → s.seen = 0) := by
  have hi := inv_reachable hD h
  have hout : s.outstanding.length = s.enqueued.length - s.dequeued.length := List.length_drop
  have hroom := hi.holds.room
  refine ⟨hi.dequeued_prefix, by omega, ?_, fun k hk i => hi.writes_free hk, ?_⟩
  · intro k hk
    obtain ⟨rfl, hlt⟩ := hi.reads_head hk
    refine ⟨fun hw => hi.writes_free hw (le_refl _) hlt rfl, s.enqueued[s.dequeued.length], ?_, ?_⟩
    · exact List.getElem?_eq_getElem hlt
    · exact hi.slot_undelivered (le_refl _) (List.getElem?_eq_getElem hlt)
  · intro a t hs
    refine ⟨hi.step_fifo hs, fun hr => ?_, fun ha hp => queue_of_onlyRead ha hp hs,
      hi.empty_of_emptied hs⟩
    obtain ⟨data, w, hp, hrej, hlen, hq⟩ := hi.full_of_rejected hs hr
    exact ⟨data, w, hp, hrej, by omega, hq⟩

/-- A value passes through the queue while a second one is being written. -/
def overlapping : List (Action Nat) :=
  [.enqueue 7] ++ List.replicate 6 .producer ++ [.dequeue, .enqueue 8] ++
    List.replicate 3 .producer ++ List.replicate 6 .consumer

theorem spsc_linearizable_run :
    ∃ s : State Nat 3, (machine Nat 3).exec (machine Nat 3).init overlapping = some s ∧
      s.dequeued = [some 7] ∧ s.dequeued <+: s.enqueued.map some := by
  refine ⟨_, rfl, rfl, ?_⟩
  exact (spsc_linearizable (by decide) (Machine.reachable_iff_exec.mpr ⟨overlapping, rfl⟩)).1

end Rticx.Spsc.Concurrent
