import Rticx.Lib.Ring

/-!
# The single-producer single-consumer queue

`rticx-spsc/src/lib.rs`, called without interference. The queue is a ring of `DEPTH` slots with
two counters that only grow, of which one slot always stays unused. Every operation is a
transcription of the method of that name; below them, `Holds q l` says that the ring stores
exactly the list `l`, and each operation has one lemma in terms of `l`.

Indices are natural numbers: `usize` arithmetic as long as no index passes `2 ^ usize::BITS`.
-/

namespace Rticx.Spsc

/--
`Queue<T, DEPTH>`. A slot that was never written (`MaybeUninit`) is `none`; a slot that was read
keeps its bytes, because `assume_init_read` only copies them.
-/
structure Queue (T : Type) (DEPTH : Nat) where
  buffer : Vector (Option T) DEPTH
  readIdx : Nat
  writeIdx : Nat

namespace Queue

variable {T : Type} {DEPTH : Nat}

/-- `Queue::new`. -/
def new : Queue T DEPTH where
  buffer := Vector.replicate DEPTH none
  readIdx := 0
  writeIdx := 0

/-- The contents of the slot an index falls into. -/
def slot (q : Queue T DEPTH) (i : Nat) : Option T := (q.buffer[i % DEPTH]?).join

/-- The test of `enqueue`: the slot after the next one is the read slot. -/
def isFull (q : Queue T DEPTH) : Bool := (q.writeIdx + 1) % DEPTH == q.readIdx % DEPTH

/-- The test of `dequeue`. -/
def isEmpty (q : Queue T DEPTH) : Bool := q.readIdx % DEPTH == q.writeIdx % DEPTH

/-- `Queue::enqueue_unchecked`. -/
def enqueueUnchecked (q : Queue T DEPTH) (data : T) : Queue T DEPTH :=
  { q with
    buffer := q.buffer.setIfInBounds (q.writeIdx % DEPTH) (some data)
    writeIdx := q.writeIdx + 1 }

/-- `Queue::enqueue`: `Ok(())` is the new queue, and `Err(data)` leaves the queue as it is. -/
def enqueue (q : Queue T DEPTH) (data : T) : Except T (Queue T DEPTH) :=
  if q.isFull then .error data else .ok (q.enqueueUnchecked data)

/-- `Queue::dequeue_unchecked`. The value read is `none` where the slot was uninitialised. -/
def dequeueUnchecked (q : Queue T DEPTH) : Option T × Queue T DEPTH :=
  (q.slot q.readIdx, { q with readIdx := q.readIdx + 1 })

/-- `Queue::dequeue`: the outer `none` is its own `None`. -/
def dequeue (q : Queue T DEPTH) : Option (Option T × Queue T DEPTH) :=
  if q.isEmpty then none else some q.dequeueUnchecked

/-- The values stored, oldest first. -/
def contents (q : Queue T DEPTH) : List T :=
  (List.range (q.writeIdx - q.readIdx)).filterMap fun i => q.slot (q.readIdx + i)

@[simp] theorem new_contents : (new : Queue T DEPTH).contents = [] := rfl

/-! ## What the ring stores -/

/-- The ring stores the list `l`, with one slot at least unused. -/
structure Holds (q : Queue T DEPTH) (l : List T) : Prop where
  length : q.writeIdx = q.readIdx + l.length
  room : l.length < DEPTH
  slots : ∀ i x, l[i]? = some x → q.slot (q.readIdx + i) = some x

variable {q : Queue T DEPTH} {l : List T} {x : T}

theorem Holds.contents (h : q.Holds l) : q.contents = l := by
  rw [Queue.contents, h.length, Nat.add_sub_cancel_left]
  exact Lib.Ring.filterMap_range l _ h.slots

theorem new_holds (h : 0 < DEPTH) : (new : Queue T DEPTH).Holds [] where
  length := rfl
  room := h
  slots := by simp

theorem Holds.isEmpty_iff (h : q.Holds l) : q.isEmpty = true ↔ l = [] := by
  have hl := h.length
  have hr := h.room
  rw [isEmpty, beq_iff_eq, Lib.Ring.mod_eq_iff_empty (by omega) (by omega), ← List.length_eq_zero_iff]
  omega

theorem Holds.isFull_iff (h : q.Holds l) : q.isFull = true ↔ l.length + 1 = DEPTH := by
  have hl := h.length
  have hr := h.room
  rw [isFull, beq_iff_eq, Lib.Ring.succ_mod_eq_iff_full (by omega) (by omega)]
  omega

/-! ## The operations -/

/-- Store something in the slot of an index. -/
def setSlot (q : Queue T DEPTH) (i : Nat) (v : Option T) : Queue T DEPTH :=
  { q with buffer := q.buffer.setIfInBounds (i % DEPTH) v }

theorem slot_setSlot (q : Queue T DEPTH) (i j : Nat) (v : Option T) (h : 0 < DEPTH) :
    (q.setSlot i v).slot j = if i % DEPTH = j % DEPTH then v else q.slot j := by
  simp only [slot, setSlot, Vector.getElem?_setIfInBounds, Nat.mod_lt _ h, if_true]
  split <;> rfl

/-- What is in the slot at the write index does not matter. -/
theorem Holds.setSlot (h : q.Holds l) (v : Option T) : (q.setSlot q.writeIdx v).Holds l where
  length := h.length
  room := h.room
  slots := by
    intro i x hx
    have hl := h.length
    have hr := h.room
    have hi : i < l.length := (List.getElem?_eq_some_iff.mp hx).1
    show (q.setSlot q.writeIdx v).slot (q.readIdx + i) = some x
    rw [slot_setSlot q _ _ v (by omega),
      if_neg (Lib.Ring.mod_ne_of_occupied (r := q.readIdx) (by omega) (by omega) (by omega))]
    exact h.slots i x hx

/-- **Advancing the write index over a written slot appends its value.** -/
theorem Holds.publish (h : q.Holds l) (hroom : l.length + 1 < DEPTH)
    (hx : q.slot q.writeIdx = some x) :
    ({ q with writeIdx := q.writeIdx + 1 } : Queue T DEPTH).Holds (l ++ [x]) where
  length := by
    have := h.length
    simp only [List.length_append, List.length_singleton]
    omega
  room := by simpa using hroom
  slots := by
    intro i y hy
    have hl := h.length
    show q.slot (q.readIdx + i) = some y
    have hi : i < (l ++ [x]).length := (List.getElem?_eq_some_iff.mp hy).1
    simp only [List.length_append, List.length_singleton] at hi
    by_cases hlast : i = l.length
    · subst hlast
      rw [← hl, hx]
      simpa using hy
    · exact h.slots i y (by rwa [List.getElem?_append_left (by omega)] at hy)

/-- **Enqueueing into a ring that has room appends.** -/
theorem Holds.enqueueUnchecked (h : q.Holds l) (hroom : l.length + 1 < DEPTH) (x : T) :
    (q.enqueueUnchecked x).Holds (l ++ [x]) := by
  refine (h.setSlot (some x)).publish hroom ?_
  show (q.setSlot q.writeIdx (some x)).slot q.writeIdx = some x
  rw [slot_setSlot q _ _ _ (by omega), if_pos rfl]

theorem Holds.isFull_false (h : q.Holds l) (hroom : l.length + 1 < DEPTH) : q.isFull = false := by
  rw [Bool.eq_false_iff]
  intro hf
  have := h.isFull_iff.mp hf
  omega

theorem Holds.isEmpty_false (h : q.Holds l) (hne : l ≠ []) : q.isEmpty = false := by
  rw [Bool.eq_false_iff]
  exact fun he => hne (h.isEmpty_iff.mp he)

theorem Holds.enqueue_ok (h : q.Holds l) (hroom : l.length + 1 < DEPTH) (x : T) :
    q.enqueue x = .ok (q.enqueueUnchecked x) := by
  simp [enqueue, h.isFull_false hroom]

theorem Holds.enqueue_error (h : q.Holds l) (hfull : l.length + 1 = DEPTH) (x : T) :
    q.enqueue x = .error x := by
  simp [enqueue, h.isFull_iff.mpr hfull]

/-- What `enqueue` answers tells how much was stored. -/
theorem Holds.enqueue_eq_ok (h : q.Holds l) {x : T} {q' : Queue T DEPTH}
    (hq : q.enqueue x = .ok q') : l.length + 1 < DEPTH ∧ q' = q.enqueueUnchecked x := by
  have hr := h.room
  by_cases hfull : l.length + 1 = DEPTH
  · rw [h.enqueue_error hfull] at hq
    cases hq
  · have hroom : l.length + 1 < DEPTH := by omega
    rw [h.enqueue_ok hroom] at hq
    exact ⟨hroom, (Except.ok.inj hq).symm⟩

/-- **Dequeueing from a ring that is not empty takes the oldest value.** -/
theorem Holds.dequeueUnchecked (h : q.Holds (x :: l)) :
    q.dequeueUnchecked.1 = some x ∧ q.dequeueUnchecked.2.Holds l := by
  refine ⟨h.slots 0 x rfl, ?_, ?_, ?_⟩
  · have := h.length
    simp only [Queue.dequeueUnchecked, List.length_cons] at *
    omega
  · have := h.room
    simp only [List.length_cons] at this
    omega
  · intro i y hy
    have := h.slots (i + 1) y hy
    rw [show q.readIdx + (i + 1) = q.readIdx + 1 + i by omega] at this
    exact this

theorem Holds.dequeue_nil (h : q.Holds []) : q.dequeue = none := by
  simp [dequeue, h.isEmpty_iff]

theorem Holds.dequeue_cons (h : q.Holds (x :: l)) :
    q.dequeue = some (some x, q.dequeueUnchecked.2) := by
  simp [dequeue, h.isEmpty_false (List.cons_ne_nil x l), Prod.ext_iff, h.dequeueUnchecked.1]

/-- The two ways a call of `dequeue` can go. -/
theorem Holds.dequeue_cases (h : q.Holds l) :
    (l = [] ∧ q.dequeue = none) ∨
      ∃ x l' q', l = x :: l' ∧ q.dequeue = some (some x, q') ∧ q'.Holds l' := by
  cases l with
  | nil => exact Or.inl ⟨rfl, h.dequeue_nil⟩
  | cons x l => exact Or.inr ⟨x, l, _, rfl, h.dequeue_cons, h.dequeueUnchecked.2⟩

end Queue

end Rticx.Spsc
