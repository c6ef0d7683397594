import Mathlib.Tactic.Common

/-!
# Executor slots

`ExecSlot` of `rticx-async/src/executor.rs`: the memory for one future of a task and two atomic
flags. Each method here is one atomic access; `poll` is several of them, which its callers take
one by one.
-/

namespace Rticx.AsyncRt

/-- `ExecSlot<F>`. The slot is `none` where `MaybeUninit` holds no live future. -/
structure ExecSlot (F : Type) where
  future : Option F
  running : Bool
  pending : Bool

namespace ExecSlot

variable {F : Type}

/-- `ExecSlot::new` -/
def new : ExecSlot F where
  future := none
  running := false
  pending := false

/-- `is_running` -/
def isRunning (s : ExecSlot F) : Bool := s.running

/-- `try_allocate`: `running` goes from `false` to `true`, or the call fails. -/
def tryAllocate (s : ExecSlot F) : Bool × ExecSlot F :=
  if s.running then (false, s) else (true, { s with running := true })

/-- The write of `spawn`; its `set_pending` follows. -/
def write (s : ExecSlot F) (f : F) : ExecSlot F := { s with future := some f }

/-- `set_pending` -/
def setPending (s : ExecSlot F) : ExecSlot F := { s with pending := true }

/-- `check_and_clear_pending` -/
def checkAndClearPending (s : ExecSlot F) : Bool × ExecSlot F :=
  if s.pending then (true, { s with pending := false }) else (false, s)

/-- The `drop_in_place` of a future that is done. -/
def dropInPlace (s : ExecSlot F) : ExecSlot F := { s with future := none }

/-- The store to `running` after that. -/
def release (s : ExecSlot F) : ExecSlot F := { s with running := false }

theorem tryAllocate_running {s : ExecSlot F} (h : s.running = true) :
    s.tryAllocate = (false, s) := by simp [tryAllocate, h]

theorem tryAllocate_free {s : ExecSlot F} (h : s.running = false) :
    s.tryAllocate = (true, { s with running := true }) := by simp [tryAllocate, h]

theorem checkAndClearPending_set {s : ExecSlot F} (h : s.pending = true) :
    s.checkAndClearPending = (true, { s with pending := false }) := by
  simp [checkAndClearPending, h]

theorem checkAndClearPending_clear {s : ExecSlot F} (h : s.pending = false) :
    s.checkAndClearPending = (false, s) := by simp [checkAndClearPending, h]

/-- Only a running slot refuses. -/
theorem running_of_tryAllocate {s : ExecSlot F} (h : s.tryAllocate.1 = false) :
    s.tryAllocate.2.running = true := by
  rw [tryAllocate] at h ⊢
  split at h
  · next hr => rwa [if_pos hr]
  · cases h

theorem checkAndClearPending_future (s : ExecSlot F) :
    s.checkAndClearPending.2.future = s.future := by
  rw [checkAndClearPending]
  split <;> rfl

/-! ## The methods do not look at the future -/

section Map

variable {F' : Type} (g : F → F') (s : ExecSlot F)

/-- The slot with less known of its future. -/
def map : ExecSlot F' where
  future := s.future.map g
  running := s.running
  pending := s.pending

theorem map_tryAllocate :
    (s.map g).tryAllocate = (s.tryAllocate.1, s.tryAllocate.2.map g) := by
  cases hr : s.running with
  | true => rw [tryAllocate_running hr, tryAllocate_running (s := s.map g) hr]
  | false =>
    rw [tryAllocate_free hr, tryAllocate_free (s := s.map g) hr]
    rfl

theorem map_checkAndClearPending :
    (s.map g).checkAndClearPending =
      (s.checkAndClearPending.1, s.checkAndClearPending.2.map g) := by
  cases hp : s.pending with
  | true =>
    rw [checkAndClearPending_set hp, checkAndClearPending_set (s := s.map g) hp]
    rfl
  | false => rw [checkAndClearPending_clear hp, checkAndClearPending_clear (s := s.map g) hp]

end Map

end ExecSlot

end Rticx.AsyncRt
