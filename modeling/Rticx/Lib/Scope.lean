import Mathlib.Logic.Function.Basic
import Mathlib.Tactic.Common

/-!
# How long locals live

Statements with blocks, as far as they decide which locals are in scope where. Each `let` that is
run makes a new local, and the address of a local may be stored; behind the block of its `let`, the
local is gone, and what was stored is dangling.

* `run` is the state behind some statements, `points` the states in front of each of them.
* `Below.run` says that locals are never made twice.
* `leaves` forgets the blocks.
-/

namespace Rticx.Lib.Scope

universe u v w

/-- A statement; `ν` are the names of locals, `π` the places an address is stored to. -/
inductive Stmt (ν : Type u) (π : Type v) (κ : Type w) where
  /-- `let name = ..` -/
  | bind (name : ν)
  /-- the address of the local is stored -/
  | store (ptr : π) (name : ν)
  /-- the locals of the body end with it -/
  | block (body : List (Stmt ν π κ))
  | other (tokens : κ)

/-- The locals in scope, innermost first, and the local each place has the address of. -/
structure State (ν : Type u) (π : Type v) where
  scope : List (ν × Nat)
  next : Nat
  stored : π → Option Nat

variable {ν : Type u} {π : Type v} {κ : Type w}

/-- Where a function begins. -/
def State.entry : State ν π where
  scope := []
  next := 0
  stored := fun _ => none

/-- The locals in scope have been made. -/
def Below (s : State ν π) : Prop := ∀ x ∈ s.scope, x.2 < s.next

theorem below_entry : Below (State.entry : State ν π) := by
  intro x hx
  cases hx

variable [DecidableEq ν] [DecidableEq π]

/-- The local that the name stands for. -/
def State.find (s : State ν π) (name : ν) : Option Nat :=
  (s.scope.find? fun x => decide (x.1 = name)).map Prod.snd

def State.bind (s : State ν π) (name : ν) : State ν π :=
  { s with scope := (name, s.next) :: s.scope, next := s.next + 1 }

def State.store (s : State ν π) (ptr : π) (name : ν) : State ν π :=
  { s with stored := Function.update s.stored ptr (s.find name) }

mutual

/-- The state behind a statement. -/
def Stmt.run : Stmt ν π κ → State ν π → State ν π
  | .bind name, s => s.bind name
  | .store ptr name, s => s.store ptr name
  | .block body, s => { run body s with scope := s.scope }
  | .other _, s => s

def run : List (Stmt ν π κ) → State ν π → State ν π
  | [], s => s
  | stmt :: stmts, s => run stmts (stmt.run s)

end

mutual

/-- The states in front of a statement and of those in it. -/
def Stmt.points : Stmt ν π κ → State ν π → List (State ν π)
  | .block body, s => s :: points body s
  | .bind _, s | .store _ _, s | .other _, s => [s]

def points : List (Stmt ν π κ) → State ν π → List (State ν π)
  | [], _ => []
  | stmt :: stmts, s => stmt.points s ++ points stmts (stmt.run s)

end

/-- At every statement, the places among `ptrs` have addresses of locals in scope. -/
def Live (ptrs : List π) (stmts : List (Stmt ν π κ)) : Prop :=
  ∀ s ∈ points stmts .entry, ∀ ptr ∈ ptrs, ∀ slot ∈ s.stored ptr, slot ∈ s.scope.map Prod.snd

instance (ptrs : List π) (stmts : List (Stmt ν π κ)) : Decidable (Live ptrs stmts) :=
  inferInstanceAs (Decidable (∀ s ∈ points stmts .entry, ∀ ptr ∈ ptrs, ∀ slot ∈ s.stored ptr,
    slot ∈ s.scope.map Prod.snd))

/-! ## Statements one after the other -/

variable {stmts stmts' : List (Stmt ν π κ)} {stmt : Stmt ν π κ} {s : State ν π}

theorem points_append :
    points (stmts ++ stmts') s = points stmts s ++ points stmts' (run stmts s) := by
  induction stmts generalizing s with
  | nil => rfl
  | cons stmt stmts ih =>
    rw [List.cons_append, points, points, run, ih, List.append_assoc]

theorem mem_points_self : s ∈ stmt.points s := by
  cases stmt <;> simp [Stmt.points]

theorem mem_points_of_ne_nil (h : stmts ≠ []) : s ∈ points stmts s := by
  cases stmts with
  | nil => exact absurd rfl h
  | cons stmt stmts =>
    rw [points]
    exact List.mem_append_left _ mem_points_self

/-! ## Without the blocks -/

mutual

/-- The statements in a statement that are no blocks. -/
def Stmt.leaves : Stmt ν π κ → List (Stmt ν π κ)
  | .block body => leaves body
  | .bind name => [.bind name]
  | .store ptr name => [.store ptr name]
  | .other tokens => [.other tokens]

def leaves : List (Stmt ν π κ) → List (Stmt ν π κ)
  | [] => []
  | stmt :: stmts => stmt.leaves ++ leaves stmts

end

omit [DecidableEq ν] [DecidableEq π] in
theorem leaves_append : leaves (stmts ++ stmts') = leaves stmts ++ leaves stmts' := by
  induction stmts with
  | nil => rfl
  | cons stmt stmts ih => rw [List.cons_append, leaves, leaves, ih, List.append_assoc]

omit [DecidableEq ν] [DecidableEq π] in
theorem leaves_map_other {α : Type*} (f : α → κ) (xs : List α) :
    leaves (xs.map fun x => (.other (f x) : Stmt ν π κ)) = xs.map fun x => .other (f x) := by
  induction xs with
  | nil => rfl
  | cons x xs ih => rw [List.map_cons, leaves, ih]; rfl

/-! ## New locals are new -/

mutual

theorem Stmt.next_le (stmt : Stmt ν π κ) (s : State ν π) : s.next ≤ (stmt.run s).next :=
  match stmt with
  | .bind _ => Nat.le_succ _
  | .store _ _ | .other _ => Nat.le_refl _
  | .block body => run_next_le body s

theorem run_next_le (stmts : List (Stmt ν π κ)) (s : State ν π) : s.next ≤ (run stmts s).next :=
  match stmts with
  | [] => Nat.le_refl _
  | stmt :: stmts => Nat.le_trans (stmt.next_le s) (run_next_le stmts (stmt.run s))

end

theorem Below.step (h : Below s) : Below (stmt.run s) := by
  cases stmt with
  | bind name =>
    intro x hx
    rcases List.mem_cons.mp hx with rfl | hx
    · exact Nat.lt_succ_self _
    · exact Nat.lt_succ_of_lt (h x hx)
  | store ptr name => exact h
  | block body =>
    intro x hx
    -- the body has made locals, but none of them is in scope
    exact Nat.lt_of_lt_of_le (h x hx) (run_next_le body s)
  | other tokens => exact h

theorem Below.run (h : Below s) : Below (run stmts s) := by
  induction stmts generalizing s with
  | nil => exact h
  | cons stmt stmts ih =>
    rw [Scope.run]
    exact ih h.step

/-- **What a block has made is out of scope behind it.** -/
theorem Below.block_not_mem (h : Below s) {body : List (Stmt ν π κ)} {slot : Nat}
    (hslot : s.next ≤ slot) : slot ∉ ((Stmt.block body).run s).scope.map Prod.snd := by
  intro hmem
  obtain ⟨x, hx, rfl⟩ := List.mem_map.mp hmem
  exact Nat.not_lt.mpr hslot (h x hx)

/-- **An address that is stored in a block is dangling at the next statement.** -/
theorem not_live_of_block {ptrs : List π} {body : List (Stmt ν π κ)} {ptr : π} {slot : Nat}
    (hptr : ptr ∈ ptrs) (hslot : (run stmts .entry).next ≤ slot)
    (hstored : ((Stmt.block body).run (run stmts .entry)).stored ptr = some slot)
    (hnext : stmts' ≠ []) : ¬ Live ptrs (stmts ++ .block body :: stmts') := by
  intro hlive
  have hpoint : (Stmt.block body).run (run stmts .entry) ∈
      points (stmts ++ .block body :: stmts') (.entry : State ν π) := by
    rw [points_append, points]
    exact List.mem_append_right _ (List.mem_append_right _ (mem_points_of_ne_nil hnext))
  exact (below_entry.run).block_not_mem hslot (hlive _ hpoint ptr hptr slot hstored)

end Rticx.Lib.Scope
