import Mathlib.Algebra.Ring.Nat
import Rticx.Lib.Fifo
import Rticx.Spsc.Queue

/-!
# The queue when its indices overflow

The queue with indices of the type `usize`, for any number of bits. The indices are only reduced
modulo `DEPTH` where they are used; past `2 ^ usize::BITS` they begin again at zero, or the addition
panics, as the build has it. As long as neither matters, the queue is the one of natural indices.
-/

namespace Rticx.Spsc

open Lib.Fifo (Call Answer bounded)

/-! ## The queue of natural indices -/

namespace Queue

variable {T : Type} {DEPTH : Nat}

/-- A call of a method. A value that was read from an uninitialised slot is no answer. -/
def call (q : Queue T DEPTH) : Call T → Option (Answer T × Queue T DEPTH)
  | .enqueue x =>
    match q.enqueue x with
    | .ok q' => some (.stored, q')
    | .error x => some (.full x, q)
  | .enqueueUnchecked x => some (.stored, q.enqueueUnchecked x)
  | .dequeue =>
    match q.dequeue with
    | none => some (.empty, q)
    | some (x, q') => x.map fun x => (.value x, q')
  | .dequeueUnchecked => q.dequeueUnchecked.1.map fun x => (.value x, q.dequeueUnchecked.2)

/-- The queue as an object. -/
def object (T : Type) (DEPTH : Nat) : Lib.Object (Queue T DEPTH) (Call T) (Answer T) := ⟨new, call⟩

variable {q : Queue T DEPTH} {l l' : List T} {x : T} {c : Call T} {b : Answer T}

theorem Holds.call_enqueue (h : q.Holds l) (hroom : l.length + 1 < DEPTH) (x : T) :
    q.call (.enqueue x) = some (.stored, q.enqueueUnchecked x) := by
  simp only [call, h.enqueue_ok hroom x]

theorem Holds.call_dequeue (h : q.Holds (x :: l)) :
    q.call .dequeue = some (.value x, q.dequeueUnchecked.2) := by
  simp only [call, h.dequeue_cons, Option.map_some]

/-- **The queue answers as a bounded queue does**, and only a call that enqueues moves the write
index. -/
theorem Holds.call (h : q.Holds l) (hcall : (bounded T (DEPTH - 1)).call l c = some (b, l')) :
    ∃ q', q.call c = some (b, q') ∧ q'.Holds l' ∧
      q'.writeIdx ≤ q.writeIdx + if c.enqueues then 1 else 0 := by
  have hroom := h.room
  cases c with
  | enqueue x =>
    by_cases hlt : l.length < DEPTH - 1
    · simp only [bounded, if_pos hlt] at hcall
      cases hcall
      refine ⟨_, h.call_enqueue (by omega) x, h.enqueueUnchecked (by omega) x, ?_⟩
      exact le_refl _
    · simp only [bounded, if_neg hlt] at hcall
      cases hcall
      refine ⟨q, ?_, h, Nat.le_add_right _ _⟩
      simp only [Queue.call, h.enqueue_error (show l.length + 1 = DEPTH by omega) x]
  | enqueueUnchecked x =>
    by_cases hlt : l.length < DEPTH - 1
    · simp only [bounded, if_pos hlt] at hcall
      cases hcall
      exact ⟨_, rfl, h.enqueueUnchecked (by omega) x, le_refl _⟩
    · simp only [bounded, if_neg hlt] at hcall
      cases hcall
  | dequeue =>
    cases l with
    | nil =>
      cases hcall
      exact ⟨q, by simp only [Queue.call, h.dequeue_nil], h, Nat.le_add_right _ _⟩
    | cons x l =>
      cases hcall
      exact ⟨_, h.call_dequeue, h.dequeueUnchecked.2, Nat.le_add_right _ _⟩
  | dequeueUnchecked =>
    cases l with
    | nil => cases hcall
    | cons x l =>
      cases hcall
      refine ⟨_, ?_, h.dequeueUnchecked.2, Nat.le_add_right _ _⟩
      simp only [Queue.call, h.dequeueUnchecked.1, Option.map_some]

theorem object_implements (hdepth : 0 < DEPTH) :
    (object T DEPTH).Implements (bounded T (DEPTH - 1)) := by
  refine .of_simulation (R := Holds) ?_ (new_holds hdepth)
  intro c q l b l' h hcall
  obtain ⟨q', hq', h', -⟩ := h.call hcall
  exact ⟨q', hq', h'⟩

end Queue

/-! ## Indices of a machine word -/

/-- What the code is compiled for. -/
structure Target where
  /-- `usize::BITS` -/
  bits : Nat
  /-- an addition that overflows panics, as in a debug build -/
  overflowChecks : Bool

namespace Target

variable {target : Target} {DEPTH n m : Nat}

abbrev Usize (target : Target) : Type := BitVec target.bits

/-- `i + 1`, or a panic. -/
def succ (target : Target) (i : target.Usize) : Option target.Usize :=
  if target.overflowChecks ∧ 2 ^ target.bits ≤ i.toNat + 1 then none else some (i + 1)

/-- Additions wrap around, and a slot is the same for an index and for the wrapped one. -/
def Wraps (target : Target) (DEPTH : Nat) : Prop :=
  target.overflowChecks = false ∧ DEPTH ∣ 2 ^ target.bits

/-- The index `n` does as a machine word. -/
def Fits (target : Target) (DEPTH n : Nat) : Prop := target.Wraps DEPTH ∨ n < 2 ^ target.bits

theorem Fits.mono (h : target.Fits DEPTH n) (hle : m ≤ n) : target.Fits DEPTH m :=
  h.imp_right hle.trans_lt

/-- The slot of an index is that of the machine word. -/
theorem Fits.mod (h : target.Fits DEPTH n) : n % 2 ^ target.bits % DEPTH = n % DEPTH := by
  rcases h with ⟨-, hdvd⟩ | hlt
  · exact Nat.mod_mod_of_dvd n hdvd
  · rw [Nat.mod_eq_of_lt hlt]

theorem Fits.succ (h : target.Fits DEPTH (n + 1)) {i : target.Usize}
    (hi : i.toNat = n % 2 ^ target.bits) :
    ∃ j, target.succ i = some j ∧ j.toNat = (n + 1) % 2 ^ target.bits := by
  refine ⟨i + 1, if_neg ?_, ?_⟩
  · rintro ⟨hchecks, hoverflow⟩
    rcases h with ⟨hfalse, -⟩ | hlt
    · rw [hfalse] at hchecks
      cases hchecks
    · have := Nat.mod_le n (2 ^ target.bits)
      omega
  · have hone : (1 : target.Usize).toNat = 1 % 2 ^ target.bits := BitVec.toNat_ofNat ..
    rw [BitVec.toNat_add, hi, hone, ← Nat.add_mod]

end Target

/-! ## The queue -/

namespace Wrapping

/-- `Queue<T, DEPTH>` -/
structure Queue (target : Target) (T : Type) (DEPTH : Nat) where
  buffer : Vector (Option T) DEPTH
  readIdx : target.Usize
  writeIdx : target.Usize

namespace Queue

variable {target : Target} {T : Type} {DEPTH : Nat}

/-- `Queue::new` -/
def new : Queue target T DEPTH where
  buffer := Vector.replicate DEPTH none
  readIdx := 0
  writeIdx := 0

/-- `Queue::enqueue_unchecked`. Here and below `none` is a panic. -/
def enqueueUnchecked (q : Queue target T DEPTH) (data : T) : Option (Queue target T DEPTH) := do
  let writeIdx ← target.succ q.writeIdx
  return { q with
    buffer := q.buffer.setIfInBounds (q.writeIdx.toNat % DEPTH) (some data)
    writeIdx := writeIdx }

/-- `Queue::enqueue` -/
def enqueue (q : Queue target T DEPTH) (data : T) :
    Option (Except T (Queue target T DEPTH)) := do
  let next ← target.succ q.writeIdx
  if next.toNat % DEPTH ≠ q.readIdx.toNat % DEPTH then
    return .ok (← q.enqueueUnchecked data)
  else
    return .error data

/-- `Queue::dequeue_unchecked` -/
def dequeueUnchecked (q : Queue target T DEPTH) : Option (Option T × Queue target T DEPTH) := do
  let data := (q.buffer[q.readIdx.toNat % DEPTH]?).join
  let readIdx ← target.succ q.readIdx
  return (data, { q with readIdx := readIdx })

/-- `Queue::dequeue` -/
def dequeue (q : Queue target T DEPTH) :
    Option (Option (Option T × Queue target T DEPTH)) :=
  let w := q.writeIdx.toNat % DEPTH
  let r := q.readIdx.toNat % DEPTH
  if r = w then some none else q.dequeueUnchecked.map some

/-- A call of a method. -/
def call (q : Queue target T DEPTH) : Call T → Option (Answer T × Queue target T DEPTH)
  | .enqueue x => do
    match ← q.enqueue x with
    | .ok q' => return (.stored, q')
    | .error x => return (.full x, q)
  | .enqueueUnchecked x => do
    return (.stored, ← q.enqueueUnchecked x)
  | .dequeue => do
    match ← q.dequeue with
    | none => return (.empty, q)
    | some (x, q') => return (.value (← x), q')
  | .dequeueUnchecked => do
    let (x, q') ← q.dequeueUnchecked
    return (.value (← x), q')

end Queue

/-- The queue as an object. -/
def object (target : Target) (T : Type) (DEPTH : Nat) :
    Lib.Object (Queue target T DEPTH) (Call T) (Answer T) :=
  ⟨Queue.new, Queue.call⟩

/-! ## The words of natural indices -/

/-- The indices are those of `Q`, as machine words. -/
structure Queue.Matches {target : Target} {T : Type} {DEPTH : Nat} (q : Queue target T DEPTH)
    (Q : Spsc.Queue T DEPTH) : Prop where
  buffer : q.buffer = Q.buffer
  readIdx : q.readIdx.toNat = Q.readIdx % 2 ^ target.bits
  writeIdx : q.writeIdx.toNat = Q.writeIdx % 2 ^ target.bits

namespace Queue.Matches

variable {target : Target} {T : Type} {DEPTH : Nat} {q : Queue target T DEPTH}
  {Q Q' : Spsc.Queue T DEPTH} {c : Call T} {b : Answer T}

theorem enqueueUnchecked (h : q.Matches Q) (hfits : target.Fits DEPTH (Q.writeIdx + 1)) (x : T) :
    ∃ q', q.enqueueUnchecked x = some q' ∧ q'.Matches (Q.enqueueUnchecked x) := by
  obtain ⟨j, hj, hword⟩ := hfits.succ h.writeIdx
  refine ⟨{ q with
    buffer := q.buffer.setIfInBounds (q.writeIdx.toNat % DEPTH) (some x)
    writeIdx := j }, ?_, ?_, h.readIdx, hword⟩
  · rw [Queue.enqueueUnchecked, hj]
    rfl
  · show q.buffer.setIfInBounds _ _ = Q.buffer.setIfInBounds _ _
    rw [h.buffer, h.writeIdx, (hfits.mono (Nat.le_succ _)).mod]

theorem dequeueUnchecked (h : q.Matches Q) (hfits : target.Fits DEPTH (Q.readIdx + 1)) :
    ∃ q', q.dequeueUnchecked = some (Q.dequeueUnchecked.1, q') ∧
      q'.Matches Q.dequeueUnchecked.2 := by
  obtain ⟨j, hj, hword⟩ := hfits.succ h.readIdx
  refine ⟨{ q with readIdx := j }, ?_, h.buffer, hword, h.writeIdx⟩
  rw [Queue.dequeueUnchecked, hj, h.buffer, h.readIdx, (hfits.mono (Nat.le_succ _)).mod]
  rfl

/-- The test of `enqueue`. -/
theorem isFull (h : q.Matches Q) (hfits : target.Fits DEPTH (Q.writeIdx + 1))
    (hle : Q.readIdx ≤ Q.writeIdx) :
    ∃ next, target.succ q.writeIdx = some next ∧
      (next.toNat % DEPTH = q.readIdx.toNat % DEPTH ↔ Q.isFull = true) := by
  obtain ⟨j, hj, hword⟩ := hfits.succ h.writeIdx
  refine ⟨j, hj, ?_⟩
  rw [hword, h.readIdx, hfits.mod, (hfits.mono (Nat.le_succ_of_le hle)).mod, Spsc.Queue.isFull,
    beq_iff_eq]

/-- The test of `dequeue`. -/
theorem isEmpty (h : q.Matches Q) (hfits : target.Fits DEPTH Q.writeIdx)
    (hle : Q.readIdx ≤ Q.writeIdx) :
    q.readIdx.toNat % DEPTH = q.writeIdx.toNat % DEPTH ↔ Q.isEmpty = true := by
  rw [h.writeIdx, h.readIdx, hfits.mod, (hfits.mono hle).mod, Spsc.Queue.isEmpty, beq_iff_eq]

/-- **The words answer as the natural indices do.** -/
theorem call (h : q.Matches Q) (hle : Q.readIdx ≤ Q.writeIdx)
    (hfits : target.Fits DEPTH (Q.writeIdx + if c.enqueues then 1 else 0))
    (hcall : Q.call c = some (b, Q')) (hle' : Q'.readIdx ≤ Q'.writeIdx) :
    ∃ q', q.call c = some (b, q') ∧ q'.Matches Q' := by
  cases c with
  | enqueue x =>
    obtain ⟨next, hnext, hfull⟩ := h.isFull hfits hle
    obtain ⟨q', hq', h'⟩ := h.enqueueUnchecked hfits x
    simp only [Spsc.Queue.call, Spsc.Queue.enqueue] at hcall
    by_cases hQ : Q.isFull = true
    · rw [if_pos hQ] at hcall
      cases hcall
      exact ⟨q, by simp [Queue.call, Queue.enqueue, hnext, hfull.mpr hQ], h⟩
    · rw [if_neg hQ] at hcall
      cases hcall
      exact ⟨q', by simp [Queue.call, Queue.enqueue, hnext, mt hfull.mp hQ, hq'], h'⟩
  | enqueueUnchecked x =>
    obtain ⟨q', hq', h'⟩ := h.enqueueUnchecked hfits x
    cases hcall
    exact ⟨q', by simp [Queue.call, hq'], h'⟩
  | dequeue =>
    have hempty := h.isEmpty hfits hle
    simp only [Spsc.Queue.call, Spsc.Queue.dequeue] at hcall
    by_cases hQ : Q.isEmpty = true
    · rw [if_pos hQ] at hcall
      cases hcall
      exact ⟨q, by simp [Queue.call, Queue.dequeue, hempty.mpr hQ], h⟩
    · rw [if_neg hQ] at hcall
      obtain ⟨x, hx, heq⟩ := Option.map_eq_some_iff.mp hcall
      cases heq
      obtain ⟨q', hq', h'⟩ := h.dequeueUnchecked (hfits.mono hle')
      rw [show Q.dequeueUnchecked.1 = some x from hx] at hq'
      exact ⟨q', by simp [Queue.call, Queue.dequeue, mt hempty.mp hQ, hq'], h'⟩
  | dequeueUnchecked =>
    obtain ⟨x, hx, heq⟩ := Option.map_eq_some_iff.mp hcall
    cases heq
    obtain ⟨q', hq', h'⟩ := h.dequeueUnchecked (hfits.mono hle')
    rw [hx] at hq'
    exact ⟨q', by simp [Queue.call, hq'], h'⟩

end Queue.Matches

variable {target : Target} {T : Type} {DEPTH : Nat} {q : Queue target T DEPTH}
  {Q : Spsc.Queue T DEPTH} {l l' : List T} {c : Call T} {b : Answer T} {calls : List (Call T)}

/-! ## While the indices fit -/

/-- The queue stores `l`, and its indices fit until the calls to come are made. -/
def Stores (calls : List (Call T)) (q : Queue target T DEPTH) (l : List T) : Prop :=
  ∃ Q : Spsc.Queue T DEPTH, Q.Holds l ∧ q.Matches Q ∧
    target.Fits DEPTH (Q.writeIdx + calls.countP Call.enqueues)

theorem new_matches : (Queue.new : Queue target T DEPTH).Matches Spsc.Queue.new where
  buffer := rfl
  readIdx := rfl
  writeIdx := rfl

theorem new_stores (hdepth : 0 < DEPTH) (hfits : target.Fits DEPTH (calls.countP Call.enqueues)) :
    Stores calls (Queue.new : Queue target T DEPTH) [] :=
  ⟨.new, Spsc.Queue.new_holds hdepth, new_matches, (Nat.zero_add _).symm ▸ hfits⟩

theorem Stores.call (h : Stores (c :: calls) q l)
    (hcall : (bounded T (DEPTH - 1)).call l c = some (b, l')) :
    ∃ q', q.call c = some (b, q') ∧ Stores calls q' l' := by
  obtain ⟨Q, hholds, hmatches, hfits⟩ := h
  obtain ⟨Q', hQ', hholds', hle⟩ := hholds.call hcall
  rw [List.countP_cons] at hfits
  have hlength := hholds.length
  have hlength' := hholds'.length
  obtain ⟨q', hq', hmatches'⟩ :=
    hmatches.call (by omega) (hfits.mono (by omega)) hQ' (by omega)
  exact ⟨q', hq', Q', hholds', hmatches', hfits.mono (by omega)⟩

/-- **A run whose indices fit is one of a bounded queue.** -/
theorem answers_of_fits (hdepth : 0 < DEPTH)
    (hfits : target.Fits DEPTH (calls.countP Call.enqueues)) {answers : List (Answer T)}
    (h : (bounded T (DEPTH - 1)).answers calls = some answers) :
    (object target T DEPTH).answers calls = some answers :=
  Lib.Object.answers_of_simulation (R := Stores) (fun _ _ _ _ _ _ hs hc => hs.call hc)
    (new_stores hdepth hfits) h

/-! ## Where they do not fit -/

/-- Calls that check for themselves, and where they have led both queues with the same answers. -/
structure Reaches (calls : List (Call T)) (q : Queue target T DEPTH) (Q : Spsc.Queue T DEPTH)
    (l : List T) : Prop where
  checked : ∀ c ∈ calls, c.checked = true
  run : ∃ answers, (object target T DEPTH).run .new calls = some (answers, q) ∧
    (bounded T (DEPTH - 1)).run [] calls = some (answers, l)
  holds : Q.Holds l
  words : q.Matches Q

theorem Reaches.call (h : Reaches calls q Q l) (hc : c.checked = true)
    (hcall : (bounded T (DEPTH - 1)).call l c = some (b, l')) {Q' : Spsc.Queue T DEPTH}
    (hQ : Q.call c = some (b, Q')) (hholds : Q'.Holds l')
    (hfits : (Q.writeIdx + if c.enqueues then 1 else 0) < 2 ^ target.bits) :
    ∃ q' : Queue target T DEPTH, Reaches (calls ++ [c]) q' Q' l' := by
  have hlength := h.holds.length
  have hlength' := hholds.length
  obtain ⟨q', hq', hwords⟩ := h.words.call (by omega) (Or.inr hfits) hQ (by omega)
  obtain ⟨answers, hrun, hspec⟩ := h.run
  refine ⟨q', ?_, ⟨answers ++ [b], ?_, ?_⟩, hholds, hwords⟩
  · intro c' hc'
    rcases List.mem_append.mp hc' with hc' | hc'
    · exact h.checked c' hc'
    · rwa [List.mem_singleton.mp hc']
  · exact Lib.Object.run_trans _ hrun
      (Lib.Object.run_cons_eq_some _ |>.mpr ⟨b, q', [], hq', rfl, rfl⟩)
  · exact Lib.Object.run_trans _ hspec
      (Lib.Object.run_cons_eq_some _ |>.mpr ⟨b, l', [], hcall, rfl, rfl⟩)

theorem Reaches.enqueue (h : Reaches calls q Q l) (hroom : l.length + 1 < DEPTH) (x : T)
    (hfits : Q.writeIdx + 1 < 2 ^ target.bits) :
    ∃ q' : Queue target T DEPTH,
      Reaches (calls ++ [.enqueue x]) q' (Q.enqueueUnchecked x) (l ++ [x]) := by
  refine h.call rfl ?_ (h.holds.call_enqueue hroom x) (h.holds.enqueueUnchecked hroom x) hfits
  exact if_pos (show l.length < DEPTH - 1 by omega)

theorem Reaches.dequeue {x : T} (h : Reaches calls q Q (x :: l))
    (hfits : Q.writeIdx < 2 ^ target.bits) :
    ∃ q' : Queue target T DEPTH, Reaches (calls ++ [.dequeue]) q' Q.dequeueUnchecked.2 l :=
  h.call rfl rfl h.holds.call_dequeue h.holds.dequeueUnchecked.2 hfits

/-- Values that go in and out move both indices. -/
theorem reaches_empty (target : Target) (hdepth : 2 ≤ DEPTH) (x : T) :
    ∀ n, n < 2 ^ target.bits → ∃ calls, ∃ q : Queue target T DEPTH, ∃ Q,
      Reaches calls q Q [] ∧ Q.readIdx = n
  | 0, _ => by
    refine ⟨[], .new, .new, ⟨?_, ⟨[], rfl, rfl⟩, Spsc.Queue.new_holds (by omega), new_matches⟩, rfl⟩
    intro c hc
    cases hc
  | n + 1, hn => by
    obtain ⟨calls, q, Q, h, hread⟩ := reaches_empty target hdepth x n (by omega)
    have hwrite : Q.writeIdx = n := h.holds.length.trans hread
    obtain ⟨q₁, h₁⟩ := h.enqueue hdepth x (by omega)
    obtain ⟨q₂, h₂⟩ := h₁.dequeue (show Q.writeIdx + 1 < 2 ^ target.bits by omega)
    exact ⟨_, q₂, _, h₂, congrArg (· + 1) hread⟩

/-- Values that only go in leave the read index where it is. -/
theorem Reaches.fill (h : Reaches calls q Q []) (x : T) :
    ∀ n, n < DEPTH → Q.readIdx + n < 2 ^ target.bits → ∃ calls, ∃ q : Queue target T DEPTH, ∃ Q' l,
      Reaches calls q Q' l ∧ Q'.readIdx = Q.readIdx ∧ l.length = n
  | 0, _, _ => ⟨calls, q, Q, [], h, rfl, rfl⟩
  | n + 1, hn, hfits => by
    obtain ⟨calls', q', Q', l, h', hread, hlength⟩ := h.fill x n (by omega) (by omega)
    have hwrite := h'.holds.length
    obtain ⟨q₁, h₁⟩ := h'.enqueue (by omega) x (by omega)
    exact ⟨_, q₁, _, _, h₁, hread, by rw [List.length_append, hlength, List.length_singleton]⟩

/-- Some calls that check for themselves are not answered as a bounded queue answers them. -/
def Misbehaves (target : Target) (T : Type) (DEPTH : Nat) : Prop :=
  ∃ calls answers, (∀ c ∈ calls, c.checked = true) ∧
    (bounded T (DEPTH - 1)).answers calls = some answers ∧
    (object target T DEPTH).answers calls ≠ some answers

/-- A call that does not store a value where there is room for it tells the queue apart. -/
theorem Reaches.not_answers (h : Reaches calls q Q l) (hroom : l.length + 1 < DEPTH) (x : T)
    (hcall : ∀ q', q.call (.enqueue x) ≠ some (.stored, q')) :
    Misbehaves target T DEPTH := by
  obtain ⟨answers, hrun, hspec⟩ := h.run
  have hstored : (bounded T (DEPTH - 1)).call l (.enqueue x) = some (.stored, l ++ [x]) :=
    if_pos (show l.length < DEPTH - 1 by omega)
  refine ⟨calls ++ [.enqueue x], answers ++ [.stored], ?_, ?_, ?_⟩
  · intro c hc
    rcases List.mem_append.mp hc with hc | hc
    · exact h.checked c hc
    · rw [List.mem_singleton.mp hc]
      rfl
  · exact Lib.Object.answers_of_run _ (Lib.Object.run_trans _ hspec
      (Lib.Object.run_cons_eq_some _ |>.mpr ⟨_, _, [], hstored, rfl, rfl⟩))
  · intro hanswers
    obtain ⟨⟨_, q'⟩, hrun', rfl⟩ := Option.map_eq_some_iff.mp hanswers
    rw [show (object target T DEPTH).init = .new from rfl, Lib.Object.run_append _ hrun] at hrun'
    obtain ⟨⟨bs, q''⟩, hlast, heq⟩ := Option.map_eq_some_iff.mp hrun'
    obtain ⟨b, q₁, bs', hb, -, rfl⟩ := (Lib.Object.run_cons_eq_some _).mp hlast
    have hb' : b = .stored := by
      have := (Prod.mk.inj heq).1
      simp only [List.append_cancel_left_eq, List.cons.injEq] at this
      exact this.1
    exact hcall q₁ (hb' ▸ hb)

/-- With overflow checks `enqueue` panics at the last index. -/
theorem panics (hdepth : 2 ≤ DEPTH) (hchecks : target.overflowChecks = true) (x : T) :
    Misbehaves target T DEPTH := by
  have hpos := Nat.two_pow_pos target.bits
  obtain ⟨calls, q, Q, h, hread⟩ :=
    reaches_empty target hdepth x (2 ^ target.bits - 1) (by omega)
  refine h.not_answers hdepth x ?_
  have hlength : Q.writeIdx = Q.readIdx := h.holds.length
  have hword := h.words.writeIdx
  rw [hlength, hread, Nat.mod_eq_of_lt (by omega)] at hword
  have hsucc : target.succ q.writeIdx = none := if_pos ⟨hchecks, by omega⟩
  intro q'
  simp [Queue.call, Queue.enqueue, hsucc]

/-- A wrapped write index is in the slot of the read index before the queue is full. -/
theorem rejects (hdepth : 2 ≤ DEPTH) (hlt : DEPTH < 2 ^ target.bits)
    (hchecks : target.overflowChecks = false) (hdvd : ¬ DEPTH ∣ 2 ^ target.bits) (x : T) :
    Misbehaves target T DEPTH := by
  have hmod : 0 < 2 ^ target.bits % DEPTH :=
    Nat.pos_of_ne_zero fun h => hdvd (Nat.dvd_of_mod_eq_zero h)
  have hmod' : 2 ^ target.bits % DEPTH < DEPTH := Nat.mod_lt _ (by omega)
  -- the read index is a multiple of `DEPTH`, and the write index the last one
  obtain ⟨calls, q, Q, h, hread⟩ := reaches_empty target hdepth x
    (2 ^ target.bits - 2 ^ target.bits % DEPTH) (by omega)
  obtain ⟨calls', q', Q', l, h', hread', hlength⟩ :=
    h.fill x (2 ^ target.bits % DEPTH - 1) (by omega) (by omega)
  refine h'.not_answers (by omega) x ?_
  have hwrite := h'.holds.length
  have hword := h'.words.writeIdx
  rw [hwrite, hread', hread, hlength, Nat.mod_eq_of_lt (by omega)] at hword
  obtain ⟨next, hnext, hzero⟩ : ∃ next, target.succ q'.writeIdx = some next ∧ next.toNat = 0 := by
    refine ⟨_, if_neg (by simp [hchecks]), ?_⟩
    have hone : (1 : target.Usize).toNat = 1 := by
      rw [show (1 : target.Usize).toNat = 1 % 2 ^ target.bits from BitVec.toNat_ofNat ..]
      exact Nat.mod_eq_of_lt (by omega)
    rw [BitVec.toNat_add, hone, hword, show 2 ^ target.bits - 2 ^ target.bits % DEPTH +
      (2 ^ target.bits % DEPTH - 1) + 1 = 2 ^ target.bits by omega, Nat.mod_self]
  have hslot : q'.readIdx.toNat % DEPTH = 0 := by
    have hword := h'.words.readIdx
    rw [hread', hread, Nat.mod_eq_of_lt (by omega)] at hword
    rw [hword]
    exact Nat.mod_eq_zero_of_dvd (Nat.dvd_sub_mod _)
  intro q''
  simp [Queue.call, Queue.enqueue, hnext, hzero, hslot]

/--
**The queue survives the overflow of its indices exactly when additions wrap around and `DEPTH`
divides `2 ^ usize::BITS`.** It may then be called without checks as well, and until the overflow
every queue does as it should.
-/
theorem survives_overflow_iff [Inhabited T] (target : Target) (hdepth : 2 ≤ DEPTH)
    (hlt : DEPTH < 2 ^ target.bits) :
    ((∀ calls answers, (∀ c ∈ calls, c.checked = true) →
        (bounded T (DEPTH - 1)).answers calls = some answers →
        (object target T DEPTH).answers calls = some answers) ↔
      target.overflowChecks = false ∧ DEPTH ∣ 2 ^ target.bits) ∧
    (target.overflowChecks = false ∧ DEPTH ∣ 2 ^ target.bits →
      (object target T DEPTH).Implements (bounded T (DEPTH - 1))) ∧
    ∀ calls answers, calls.countP Call.enqueues < 2 ^ target.bits →
      (bounded T (DEPTH - 1)).answers calls = some answers →
      (object target T DEPTH).answers calls = some answers := by
  have hwraps : target.overflowChecks = false ∧ DEPTH ∣ 2 ^ target.bits →
      (object target T DEPTH).Implements (bounded T (DEPTH - 1)) :=
    fun h calls answers => answers_of_fits (by omega) (Or.inl h)
  refine ⟨⟨fun hruns => ?_, fun h calls answers _ => hwraps h calls answers⟩, hwraps, ?_⟩
  · by_contra hnot
    obtain ⟨calls, answers, hchecked, hspec, hne⟩ : Misbehaves target T DEPTH := by
      cases hchecks : target.overflowChecks with
      | true => exact panics hdepth hchecks default
      | false => exact rejects hdepth hlt hchecks (fun hdvd => hnot ⟨hchecks, hdvd⟩) default
    exact hne (hruns calls answers hchecked hspec)
  · exact fun calls answers hcount => answers_of_fits (by omega) (Or.inr hcount)

/-- Three values at most, on a device of 32 bits. -/
theorem survives_overflow_iff_four :
    (object ⟨32, false⟩ Nat 4).Implements (bounded Nat 3) :=
  (survives_overflow_iff ⟨32, false⟩ (by decide) (by decide)).2.1 ⟨rfl, by decide⟩

/-- The input queue of a task of capacity 2: at the overflow it is full while it is empty. -/
theorem full_while_empty : Misbehaves ⟨32, false⟩ Nat 3 :=
  rejects (by decide) (by decide) rfl (by decide) 0

end Wrapping

end Rticx.Spsc
