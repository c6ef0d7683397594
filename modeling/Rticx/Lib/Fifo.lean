import Mathlib.Data.List.Basic
import Rticx.Lib.Object

/-!
# First in, first out

The abstract queue that the queues of a program are compared with.

* `Fifo.Step` is one atomic operation on a bounded queue, or none.
* `Fifo.bounded` answers calls as a bounded queue does.
* `Fifo.Account` is the balance of a queue over a whole run: what was accepted is what was
  delivered followed by what is still waiting. Whoever keeps it delivers nothing twice, loses
  nothing and never reorders.
-/

namespace Rticx.Lib.Fifo

variable {α : Type*}

/-- One atomic operation of a queue with room for `capacity` values, or no operation at all. -/
inductive Step (capacity : Nat) : List α → List α → Prop where
  | skip (l : List α) : Step capacity l l
  | push {l : List α} (x : α) (room : l.length < capacity) : Step capacity l (l ++ [x])
  | pop (x : α) (l : List α) : Step capacity (x :: l) l

/-- What was accepted, in order, is what was delivered followed by what is waiting. -/
def Account (accepted delivered waiting : List α) : Prop := accepted = delivered ++ waiting

namespace Account

variable {accepted delivered waiting : List α} {x : α}

theorem nil : Account ([] : List α) [] [] := rfl

theorem push (h : Account accepted delivered waiting) (x : α) :
    Account (accepted ++ [x]) delivered (waiting ++ [x]) := by
  rw [Account, h, List.append_assoc]

theorem pop (h : Account accepted delivered (x :: waiting)) :
    Account accepted (delivered ++ [x]) waiting := by
  rw [Account, h, List.append_assoc, List.singleton_append]

theorem delivered_prefix (h : Account accepted delivered waiting) : delivered <+: accepted :=
  ⟨waiting, h.symm⟩

/-- With nothing waiting, everything accepted was delivered. -/
theorem all_delivered (h : Account accepted delivered []) : delivered = accepted := by
  rw [Account, List.append_nil] at h
  exact h.symm

end Account

/-! ## The calls of a bounded queue -/

/-- A call of a queue. The unchecked ones leave it to the caller to know that there is room, or a
value. -/
inductive Call (α : Type*) where
  | enqueue (x : α)
  | enqueueUnchecked (x : α)
  | dequeue
  | dequeueUnchecked

inductive Answer (α : Type*) where
  | stored
  /-- the queue is full, and the value is handed back -/
  | full (x : α)
  | value (x : α)
  | empty
  deriving DecidableEq

/-- The call checks for itself. -/
def Call.checked : Call α → Bool
  | .enqueue _ | .dequeue => true
  | .enqueueUnchecked _ | .dequeueUnchecked => false

def Call.enqueues : Call α → Bool
  | .enqueue _ | .enqueueUnchecked _ => true
  | .dequeue | .dequeueUnchecked => false

/-- The queue with room for `capacity` values. An unchecked call is allowed where it is right. -/
def bounded (α : Type*) (capacity : Nat) : Object (List α) (Call α) (Answer α) where
  init := []
  call
    | l, .enqueue x =>
      if l.length < capacity then some (.stored, l ++ [x]) else some (.full x, l)
    | l, .enqueueUnchecked x => if l.length < capacity then some (.stored, l ++ [x]) else none
    | [], .dequeue => some (.empty, [])
    | [], .dequeueUnchecked => none
    | x :: l, .dequeue | x :: l, .dequeueUnchecked => some (.value x, l)

end Rticx.Lib.Fifo
