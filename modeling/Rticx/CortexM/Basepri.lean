import Rticx.CortexM.Program
import Rticx.Lib.Machine

/-!
# Locks and tasks on the BASEPRI path

The module `basepri` of `distributions/rticx-cortex-m/src/export.rs`, and the interrupts that
preempt it. A state has the mask registers and the contexts that have begun and not ended: the
latest handler first, idle last. Only the first context runs. Every access of `run` and of `lock`
to a register is one step, and an interrupt may be taken between any two steps.

A lock and a handler remember how they found the registers; nothing in the code reads this.
-/

namespace Rticx.CortexM.Basepri

open Rticx.Core Lib

/-! ## Registers -/

structure Regs where
  basepri : Nat
  primask : Bool
  deriving DecidableEq

namespace Regs

def reset : Regs := { basepri := 0, primask := false }

/-- `basepri_max::write`: the write takes effect only where it raises the mask. -/
def writeBasepriMax (regs : Regs) (value : Nat) : Regs :=
  if value ≠ 0 ∧ (regs.basepri = 0 ∨ value < regs.basepri) then { regs with basepri := value }
  else regs

/-- The registers keep an interrupt of this hardware priority from being taken. -/
def Masks (regs : Regs) (hw : Nat) : Prop :=
  regs.primask = true ∨ (regs.basepri ≠ 0 ∧ regs.basepri ≤ hw)

instance (regs : Regs) (hw : Nat) : Decidable (regs.Masks hw) :=
  inferInstanceAs (Decidable (_ ∨ _))

end Regs

/-! ## Locks -/

inductive LockStage where
  /-- at the comparison of the ceiling -/
  | enter
  /-- after `basepri::read` -/
  | basepriRead (current : Nat)
  /-- in the closure, after `basepri_max::write` -/
  | raised (current : Nat)
  /-- in `interrupt::free`, after `primask::read` -/
  | primaskRead (active : Bool)
  /-- in the closure, with the interrupts disabled -/
  | free (active : Bool)
  deriving DecidableEq

structure Lock where
  resource : Ident
  /-- `CEILING as u8` -/
  ceiling : Nat
  found : Regs
  stage : LockStage
  deriving DecidableEq

namespace Lock

/-- The closure runs. -/
def inside (l : Lock) : Bool :=
  match l.stage with
  | .raised _ | .free _ => true
  | _ => false

/-- The next step of `lock` before the closure. -/
def advance (b : Nat) (regs : Regs) (l : Lock) : Option (Regs × Lock) :=
  match l.stage with
  | .enter =>
    if l.ceiling = 2 ^ b then some (regs, { l with stage := .primaskRead (!regs.primask) })
    else some (regs, { l with stage := .basepriRead regs.basepri })
  | .basepriRead current =>
    some (regs.writeBasepriMax (cortexLogical2hw l.ceiling b), { l with stage := .raised current })
  | .primaskRead active => some ({ regs with primask := true }, { l with stage := .free active })
  | .raised _ | .free _ => none

/-- What `lock` does after the closure. -/
def leave (regs : Regs) (l : Lock) : Option Regs :=
  match l.stage with
  | .raised current => some { regs with basepri := current }
  | .free active => some (if active then { regs with primask := false } else regs)
  | _ => none

end Lock

/-! ## Contexts -/

inductive Phase where
  /-- a handler before `run` -/
  | entry
  /-- in the closure of `run`, which has saved BASEPRI unless the priority is 1 -/
  | body (initial : Option Nat)
  /-- after `run` -/
  | left
  deriving DecidableEq

/-- A context. -/
structure Frame where
  handler : Option RticTask
  found : Regs
  phase : Phase
  running : Option RticTask
  /-- the innermost lock first -/
  locks : List Lock
  deriving DecidableEq

inductive Op where
  | run
  | exec (task : RticTask)
  | lock (resource : Ident)
  | advance
  | unlock
  | restore

namespace Frame

/-- The resources in whose critical section the context is. -/
def held (f : Frame) : List Ident := (f.locks.filter (·.inside)).map (·.resource)

/-- The context of a handler that is entered. -/
def taken (t : RticTask) (regs : Regs) : Frame where
  handler := some t
  found := regs
  phase := .entry
  running := none
  locks := []

def hwPriority (nvic : Nvic) (f : Frame) : Nat :=
  match f.handler with
  | some t => (t.args.binds.map nvic.priority).getD (2 ^ 8)
  | none => 2 ^ 8

/-- The registers and the context after a step, with the registers as a lock or `run` found and
left them. -/
abbrev Result := Regs × Frame × List (Regs × Regs)

/-- `run` saves BASEPRI and calls its closure. -/
def run (regs : Regs) (f : Frame) : Option Result :=
  match f.phase, f.handler with
  | .entry, some t =>
    -- at priority `1` BASEPRI can only be `0`
    let initial := if asU8 t.args.priority = 1 then none else some regs.basepri
    some (regs, { f with phase := .body initial }, [])
  | _, _ => none

/-- Go on to a task. -/
def exec (P : Program) (regs : Regs) (f : Frame) (task : RticTask) : Option Result :=
  match f.phase, f.locks with
  | .body _, [] =>
    if task ∈ P.executes f.handler then some (regs, { f with running := some task }, []) else none
  | _, _ => none

/-- The task calls `lock` on a resource. -/
def lock (P : Program) (regs : Regs) (f : Frame) (resource : Ident) : Option Result :=
  match f.phase, f.running, P.sub.getField resource with
  | .body _, some task, some e =>
    if resource ∈ task.args.shared ∧ f.locks.head?.all Lock.inside then
      let l : Lock := ⟨resource, asU8 e.priority, regs, .enter⟩
      some (regs, { f with locks := l :: f.locks }, [])
    else none
  | _, _, _ => none

/-- The innermost lock goes on towards its closure. -/
def advance (b : Nat) (regs : Regs) (f : Frame) : Option Result :=
  match f.locks with
  | l :: locks =>
    (l.advance b regs).map fun next => (next.1, { f with locks := next.2 :: locks }, [])
  | [] => none

/-- The innermost lock returns. -/
def unlock (regs : Regs) (f : Frame) : Option Result :=
  match f.locks with
  | l :: locks =>
    (l.leave regs).map fun regs' => (regs', { f with locks := locks }, [(l.found, regs')])
  | [] => none

/-- `run` restores BASEPRI after its closure. -/
def restore (regs : Regs) (f : Frame) : Option Result :=
  match f.phase, f.handler, f.locks with
  | .body initial, some _, [] =>
    let regs' := { regs with basepri := initial.getD 0 }
    some (regs', { f with phase := .left, running := none }, [(f.found, regs')])
  | _, _, _ => none

def step (P : Program) (b : Nat) (regs : Regs) (f : Frame) : Op → Option Result
  | .run => f.run regs
  | .exec task => f.exec P regs task
  | .lock resource => f.lock P regs resource
  | .advance => f.advance b regs
  | .unlock => f.unlock regs
  | .restore => f.restore regs

end Frame

/-! ## The machine -/

structure State where
  regs : Regs
  frames : List Frame
  pended : List Ident
  /-- the registers as the locks and tasks found and left them, the latest first -/
  exits : List (Regs × Regs)

inductive Action where
  | pend (irq : Ident)
  | take (irq : Ident)
  | op (o : Op)
  | ret

namespace State

def init : State where
  regs := .reset
  frames := [{ handler := none, found := .reset, phase := .body none, running := none, locks := [] }]
  pended := []
  exits := []

/-- The hardware priority that the core executes at. -/
def active (nvic : Nvic) (s : State) : Nat :=
  s.frames.foldr (fun f p => min (f.hwPriority nvic) p) (2 ^ 8)

/-- An interrupt is taken only where the hardware lets it. -/
def CanTake (nvic : Nvic) (s : State) (irq : Ident) : Prop :=
  irq ∈ s.pended ∧ nvic.isEnabled irq = true ∧ nvic.priority irq < s.active nvic ∧
    ¬ s.regs.Masks (nvic.priority irq)

instance (nvic : Nvic) (s : State) (irq : Ident) : Decidable (s.CanTake nvic irq) :=
  inferInstanceAs (Decidable (_ ∧ _))

def pend (s : State) (irq : Ident) : State :=
  { s with pended := if irq ∈ s.pended then s.pended else irq :: s.pended }

/-- Enter the handler of an interrupt. -/
def take (P : Program) (nvic : Nvic) (s : State) (irq : Ident) : Option State :=
  match P.handler irq with
  | some t =>
    if s.CanTake nvic irq then
      some { s with pended := s.pended.erase irq, frames := .taken t s.regs :: s.frames }
    else none
  | none => none

/-- A step of the context that runs. -/
def op (P : Program) (b : Nat) (s : State) (o : Op) : Option State :=
  match s.frames with
  | f :: frames =>
    (f.step P b s.regs o).map fun next =>
      { s with regs := next.1, frames := next.2.1 :: frames, exits := next.2.2 ++ s.exits }
  | [] => none

/-- Return from a handler. -/
def ret (s : State) : Option State :=
  match s.frames with
  | f :: frames => if f.phase = .left then some { s with frames := frames } else none
  | [] => none

def step (P : Program) (b : Nat) (nvic : Nvic) (s : State) : Action → Option State
  | .pend irq => some (s.pend irq)
  | .take irq => s.take P nvic irq
  | .op o => s.op P b o
  | .ret => s.ret

end State

/-- A program whose interrupts have been programmed. -/
def machine (P : Program) (b : Nat) (nvic : Nvic) : Machine State Action where
  init := .init
  step := State.step P b nvic

end Rticx.CortexM.Basepri
