import Rticx.CortexM.SourceMask
import Rticx.Lib.Machine

/-!
# What a source-masking lock keeps out

Interrupts that preempt the locks of `source_mask`. As on the BASEPRI path a state has the contexts
that have begun and not ended, the latest first, but `run` does nothing here and the enable bits of
the NVIC take the place of BASEPRI. Every write to an enable register is a step of its own, so a lock
that masks interrupts of two words can be preempted between them.

A lock is single if it is taken outside every other lock of its context and none is taken inside it.
Nothing in the code reads this.
-/

namespace Rticx.CortexM.SourceMask

open Rticx.Core Lib Lib.Except

/-! ## Locks -/

inductive Stage where
  /-- in the closure, with nothing masked -/
  | plain
  /-- at the start of `interrupt::free` -/
  | enterFree
  /-- after `primask::read` -/
  | primaskRead (active : Bool)
  /-- in the closure, with the interrupts disabled -/
  | free (active : Bool)
  /-- before a round of `clear_enable_mask` -/
  | clearing (i : Nat)
  /-- in the closure, between the two loops -/
  | masked
  /-- before a round of `set_enable_mask` -/
  | setting (i : Nat)

structure Lock where
  resource : Ident
  /-- `TASK_PRIORITY` -/
  priority : Nat
  /-- `CEILING` -/
  ceiling : Nat
  single : Bool
  stage : Stage

/-- Where `lock` begins. -/
def Stage.entry (priority ceiling : Nat) : Stage :=
  if priority < ceiling then if 4 ≤ ceiling then .enterFree else .clearing 0 else .plain

namespace Lock

/-- The closure runs. -/
def inside (l : Lock) : Bool :=
  match l.stage with
  | .plain | .free _ | .masked => true
  | _ => false

variable {M : Nat} (masks : Vector (Mask M) 3) (regs : Regs) (l : Lock)

def mask : Mask M := computeMask (asU8 l.priority) (asU8 l.ceiling) masks

/-- The next step of `lock` outside its closure, and the lock unless it has returned. -/
def advance : Option (Regs × Option Lock) :=
  match l.stage with
  | .enterFree => some (regs, some { l with stage := .primaskRead (!regs.primask) })
  | .primaskRead active => some ({ regs with primask := true }, some { l with stage := .free active })
  | .clearing i =>
    if i < M then
      some (clearEnableChunk (l.mask masks) i regs, some { l with stage := .clearing (i + 1) })
    else some (regs, some { l with stage := .masked })
  | .setting i =>
    if i < M then
      some (setEnableChunk (l.mask masks) i regs, some { l with stage := .setting (i + 1) })
    else some (regs, none)
  | .plain | .free _ | .masked => none

/-- The closure returns. -/
def leave : Option (Regs × Option Lock) :=
  match l.stage with
  | .plain => some (regs, none)
  | .free active => some (if active then { regs with primask := false } else regs, none)
  | .masked => some (regs, some { l with stage := .setting 0 })
  | _ => none

end Lock

/-! ## Contexts -/

structure Frame where
  handler : Option RticTask
  running : Option RticTask
  /-- the innermost lock first -/
  locks : List Lock

inductive Op where
  | exec (task : RticTask)
  | lock (resource : Ident)
  | advance
  | leave

namespace Frame

/-- The context of a handler that is entered. -/
def taken (t : RticTask) : Frame where
  handler := some t
  running := none
  locks := []

def hwPriority (nvic : Nvic) (f : Frame) : Nat :=
  match f.handler with
  | some t => (t.args.binds.map nvic.priority).getD (2 ^ 8)
  | none => 2 ^ 8

/-- Go on to a task. -/
def exec (P : Program) (regs : Regs) (f : Frame) (task : RticTask) : Option (Regs × Frame) :=
  if f.locks.isEmpty ∧ task ∈ P.executes f.handler then some (regs, { f with running := some task })
  else none

/-- The task calls `lock` on a resource. -/
def lock (P : Program) (regs : Regs) (f : Frame) (resource : Ident) : Option (Regs × Frame) :=
  match f.running, P.sub.getField resource with
  | some task, some e =>
    if resource ∈ task.args.shared ∧ f.locks.head?.all Lock.inside then
      let l : Lock :=
        ⟨resource, task.args.priority, e.priority, f.locks.isEmpty,
          .entry task.args.priority e.priority⟩
      some (regs, { f with locks := l :: f.locks.map fun k => { k with single := false } })
    else none
  | _, _ => none

/-- A step of the innermost lock. -/
def innermost (f : Frame) (step : Lock → Option (Regs × Option Lock)) : Option (Regs × Frame) :=
  match f.locks with
  | l :: locks => (step l).map fun next => (next.1, { f with locks := next.2.toList ++ locks })
  | [] => none

def step {M : Nat} (P : Program) (masks : Vector (Mask M) 3) (regs : Regs) (f : Frame) :
    Op → Option (Regs × Frame)
  | .exec task => f.exec P regs task
  | .lock resource => f.lock P regs resource
  | .advance => f.innermost (Lock.advance masks regs)
  | .leave => f.innermost (Lock.leave regs)

end Frame

/-! ## The machine -/

structure State where
  regs : Regs
  frames : List Frame
  pended : List Ident

inductive Action where
  | pend (irq : Ident)
  | take (irq : Ident)
  | op (o : Op)
  | ret

/-- The registers after `post_init`, which has unmasked the interrupts of the NVIC. -/
def bootRegs (number : Ident → Nat) (sub : SubApp) : Regs :=
  (irqNumbers number (nvicTasks sub)).foldl
    (fun regs n => regs.writeIser (n / 32) (1#32 <<< (n % 32)))
    { iser := fun _ => 0, primask := false }

namespace State

def init (number : Ident → Nat) (sub : SubApp) : State where
  regs := bootRegs number sub
  frames := [{ handler := none, running := none, locks := [] }]
  pended := []

/-- The hardware priority that the core executes at. -/
def active (nvic : Nvic) (s : State) : Nat :=
  s.frames.foldr (fun f p => min (f.hwPriority nvic) p) (2 ^ 8)

/-- An interrupt is taken only where the hardware lets it; an exception has no enable bit. -/
def CanTake (number : Ident → Nat) (nvic : Nvic) (s : State) (irq : Ident) : Prop :=
  irq ∈ s.pended ∧ (isException irq = true ∨ s.regs.enabled (number irq) = true) ∧
    nvic.priority irq < s.active nvic ∧ s.regs.primask = false

instance (number : Ident → Nat) (nvic : Nvic) (s : State) (irq : Ident) :
    Decidable (s.CanTake number nvic irq) :=
  inferInstanceAs (Decidable (_ ∧ _))

def pend (s : State) (irq : Ident) : State :=
  { s with pended := if irq ∈ s.pended then s.pended else irq :: s.pended }

/-- Enter the handler of an interrupt. -/
def take (P : Program) (number : Ident → Nat) (nvic : Nvic) (s : State) (irq : Ident) :
    Option State :=
  match P.handler irq with
  | some t =>
    if s.CanTake number nvic irq then
      some { s with pended := s.pended.erase irq, frames := .taken t :: s.frames }
    else none
  | none => none

/-- A step of the context that runs. -/
def op {M : Nat} (P : Program) (masks : Vector (Mask M) 3) (s : State) (o : Op) : Option State :=
  match s.frames with
  | f :: frames =>
    (f.step P masks s.regs o).map fun next =>
      { s with regs := next.1, frames := next.2 :: frames }
  | [] => none

/-- Return from a handler. -/
def ret (s : State) : Option State :=
  match s.frames with
  | f :: frames =>
    if f.handler.isSome ∧ f.locks.isEmpty then some { s with frames := frames } else none
  | [] => none

def step {M : Nat} (P : Program) (number : Ident → Nat) (nvic : Nvic) (masks : Vector (Mask M) 3)
    (s : State) : Action → Option State
  | .pend irq => some (s.pend irq)
  | .take irq => s.take P number nvic irq
  | .op o => s.op P masks o
  | .ret => s.ret

end State

/-- A program whose interrupts have been programmed and whose masks have been computed. -/
def machine {M : Nat} (P : Program) (number : Ident → Nat) (nvic : Nvic)
    (masks : Vector (Mask M) 3) : Machine State Action where
  init := .init number P.sub
  step := State.step P number nvic masks

/-! ## What a lock has masked -/

namespace Lock

/-- The lock has disabled its interrupts of this word, and not begun to enable them. -/
def Cleared (l : Lock) (i : Nat) : Prop :=
  match l.stage with
  | .clearing k => i < k
  | .masked => True
  | _ => False

instance (l : Lock) (i : Nat) : Decidable (l.Cleared i) :=
  match l with
  | ⟨_, _, _, _, .clearing k⟩ => inferInstanceAs (Decidable (i < k))
  | ⟨_, _, _, _, .masked⟩ => isTrue trivial
  | ⟨_, _, _, _, .plain⟩ | ⟨_, _, _, _, .enterFree⟩ | ⟨_, _, _, _, .primaskRead _⟩
  | ⟨_, _, _, _, .free _⟩ | ⟨_, _, _, _, .setting _⟩ => isFalse id

def IsFree (l : Lock) : Prop := ∃ active, l.stage = .free active

/-- The lock is at a stage of its branch. -/
def Staged (l : Lock) : Prop :=
  match l.stage with
  | .plain => l.ceiling ≤ l.priority
  | .enterFree | .primaskRead _ | .free _ => l.priority < l.ceiling ∧ 4 ≤ l.ceiling
  | .clearing _ | .masked | .setting _ => l.priority < l.ceiling ∧ l.ceiling < 4

/-- The lock belongs to the task that runs, and to its branch. -/
structure Ok (P : Program) (f : Frame) (l : Lock) : Prop where
  task : ∃ t, f.running = some t ∧ l.priority = t.args.priority ∧ l.resource ∈ t.args.shared
  field : ∃ e, P.sub.getField l.resource = some e ∧ l.ceiling = e.priority
  staged : l.Staged

/-- What a single lock has masked is disabled. -/
def Masks {M : Nat} (masks : Vector (Mask M) 3) (regs : Regs) (l : Lock) : Prop :=
  ∀ i, l.Cleared i → regs.iser i &&& (l.mask masks).chunk i = 0

end Lock

/-- The context has a single lock in a global critical section. -/
def Frame.Free (f : Frame) : Prop := ∃ l ∈ f.locks, l.single = true ∧ l.IsFree

/-- A context whose single lock keeps its interrupts out. -/
structure Frame.Ok {M : Nat} (P : Program) (masks : Vector (Mask M) 3) (regs : Regs) (f : Frame) :
    Prop where
  locks : ∀ l ∈ f.locks, l.Ok P f
  single : ∀ l ∈ f.locks, l.single = true → f.locks = [l]
  masks : ∀ l ∈ f.locks, l.single = true → l.Masks masks regs

/-- The word that a step writes to a set-enable register. -/
def State.enables {M : Nat} (masks : Vector (Mask M) 3) (s : State) :
    Action → Option (Nat × BitVec 32)
  | .op .advance => (s.frames.head?.bind fun f => f.locks.head?).bind fun l =>
    match l.stage with
    | .setting i => some (i, (l.mask masks).chunk i)
    | _ => none
  | _ => none

/-- The step enables no interrupt that a single lock of another context has masked. -/
def EnablesUnmasked {M : Nat} (masks : Vector (Mask M) 3) (s : State) (a : Action) : Prop :=
  ∀ w ∈ s.enables masks a, ∀ g ∈ s.frames.tail, ∀ k ∈ g.locks, k.single = true →
    k.Cleared w.1 → (k.mask masks).chunk w.1 &&& w.2 = 0

instance {M : Nat} (masks : Vector (Mask M) 3) (s : State) (a : Action) :
    Decidable (EnablesUnmasked masks s a) :=
  inferInstanceAs (Decidable (∀ w ∈ s.enables masks a, ∀ g ∈ s.frames.tail, ∀ k ∈ g.locks, _))

section

variable {M : Nat} {P : Program} {masks : Vector (Mask M) 3} {number : Ident → Nat} {nvic : Nvic}
  {regs regs' : Regs} {f f' g : Frame} {l : Lock} {next : Option Lock} {o : Op} {s t : State}
  {a : Action}

/-! ## Steps of a lock -/

/-- What a step of a lock does to the enable bits. -/
inductive Wrote (masks : Vector (Mask M) 3) (l : Lock) (regs regs' : Regs) : Prop where
  | cleared (h : ∀ j, ∃ w, regs'.iser j = regs.iser j &&& w)
  | set (i : Nat) (hstage : l.stage = .setting i)
      (h : regs' = setEnableChunk (l.mask masks) i regs)

theorem Wrote.refl : Wrote masks l regs regs :=
  .cleared fun _ => ⟨BitVec.allOnes 32, BitVec.and_allOnes.symm⟩

/-- What another lock has masked stays so, unless the lock enables it. -/
theorem Wrote.keeps {k : Lock} (h : Wrote masks l regs regs') (hk : k.Masks masks regs)
    (hset : ∀ i, l.stage = .setting i → k.Cleared i →
      (k.mask masks).chunk i &&& (l.mask masks).chunk i = 0) : k.Masks masks regs' := by
  intro j hj
  cases h with
  | cleared h =>
    obtain ⟨w, hw⟩ := h j
    rw [hw, BitVec.and_assoc, BitVec.and_comm w, ← BitVec.and_assoc, hk j hj]
    exact BitVec.zero_and
  | set i hstage h =>
    rw [h, setEnableChunk_iser]
    split
    · rename_i hji
      rw [hji] at hj ⊢
      rw [BitVec.and_comm, BitVec.and_or_distrib_left, hset i hstage hj, BitVec.and_comm, hk i hj]
      exact BitVec.or_zero
    · exact hk j hj

/-- A step of a lock: what it makes of the lock and of the registers. -/
structure Lock.Stepped (masks : Vector (Mask M) 3) (l : Lock) (regs regs' : Regs)
    (next : Option Lock) : Prop where
  wrote : Wrote masks l regs regs'
  same : ∀ k ∈ next, k.resource = l.resource ∧ k.priority = l.priority ∧ k.ceiling = l.ceiling ∧
    k.single = l.single
  staged : l.Staged → ∀ k ∈ next, k.Staged
  masks : l.Masks masks regs → ∀ k ∈ next, k.Masks masks regs'
  free : ∀ k ∈ next, k.IsFree → regs'.primask = true

theorem Lock.advance_stepped (h : l.advance masks regs = some (regs', next)) :
    l.Stepped masks regs regs' next := by
  unfold Lock.advance at h
  split at h
  · rename_i hst
    cases h
    refine ⟨.refl, by simp, ?_, ?_, ?_⟩
    · rintro hl k ⟨⟩
      simpa [Lock.Staged, hst] using hl
    · rintro hl k ⟨⟩ j ⟨⟩
    · rintro k ⟨⟩ ⟨active, ⟨⟩⟩
  · rename_i hst
    cases h
    -- this lock disables all interrupts instead of masking some
    refine ⟨.cleared fun _ => ⟨BitVec.allOnes 32, BitVec.and_allOnes.symm⟩, by simp, ?_, ?_, ?_⟩
    · rintro hl k ⟨⟩
      simpa [Lock.Staged, hst] using hl
    · rintro hl k ⟨⟩ j ⟨⟩
    · rintro k ⟨⟩ -
      rfl
  · rename_i i hst
    split at h
    · cases h
      -- one more chunk is cleared
      refine ⟨.cleared fun j => ?_, by simp, ?_, ?_, ?_⟩
      · rw [clearEnableChunk_iser]
        split
        · exact ⟨_, rfl⟩
        · exact ⟨BitVec.allOnes 32, BitVec.and_allOnes.symm⟩
      · rintro hl k ⟨⟩
        simpa [Lock.Staged, hst] using hl
      · rintro hl k ⟨⟩ j hj
        have hj : j < i + 1 := hj
        show (clearEnableChunk (l.mask masks) i regs).iser j &&& (l.mask masks).chunk j = 0
        rw [clearEnableChunk_iser]
        split
        · rw [BitVec.and_assoc, BitVec.and_comm (~~~_), BitVec.and_not_self]
          exact BitVec.and_zero
        · refine hl j ?_
          show Lock.Cleared l j
          unfold Lock.Cleared
          rw [hst]
          show j < i
          omega
      · rintro k ⟨⟩ ⟨active, ⟨⟩⟩
    · -- behind the last chunk the body runs
      rename_i hi
      cases h
      refine ⟨.refl, by simp, ?_, ?_, ?_⟩
      · rintro hl k ⟨⟩
        simpa [Lock.Staged, hst] using hl
      · rintro hl k ⟨⟩ j -
        show regs.iser j &&& (l.mask masks).chunk j = 0
        by_cases hj : j < M
        · refine hl j ?_
          unfold Lock.Cleared
          rw [hst]
          show j < i
          omega
        · rw [Mask.chunk_of_le (Nat.le_of_not_lt hj)]
          exact BitVec.and_zero
      · rintro k ⟨⟩ ⟨active, ⟨⟩⟩
  · rename_i i hst
    split at h
    · cases h
      refine ⟨.set i hst rfl, by simp, ?_, ?_, ?_⟩
      · rintro hl k ⟨⟩
        simpa [Lock.Staged, hst] using hl
      · rintro hl k ⟨⟩ j ⟨⟩
      · rintro k ⟨⟩ ⟨active, ⟨⟩⟩
    · cases h
      exact ⟨.refl, by simp, by simp, by simp, by simp⟩
  · cases h
  · cases h
  · cases h

theorem Lock.leave_stepped (h : l.leave regs = some (regs', next)) :
    l.Stepped masks regs regs' next := by
  unfold Lock.leave at h
  split at h
  · cases h
    exact ⟨.refl, by simp, by simp, by simp, by simp⟩
  · cases h
    refine ⟨.cleared fun j => ⟨BitVec.allOnes 32, ?_⟩, by simp, by simp, by simp, by simp⟩
    split
    · exact BitVec.and_allOnes.symm
    · exact BitVec.and_allOnes.symm
  · rename_i hst
    cases h
    refine ⟨.refl, by simp, ?_, ?_, ?_⟩
    · rintro hl k ⟨⟩
      simpa [Lock.Staged, hst] using hl
    · rintro hl k ⟨⟩ j ⟨⟩
    · rintro k ⟨⟩ ⟨active, ⟨⟩⟩
  · cases h

/-! ## Steps of a context -/

/-- A step of a context: what it makes of the context, and what it writes. -/
structure Frame.Stepped (P : Program) (masks : Vector (Mask M) 3) (f : Frame) (regs regs' : Regs)
    (f' : Frame) : Prop where
  ok : f'.Ok P masks regs'
  free : f'.Free → regs'.primask = true
  wrote : (∀ j, ∃ w, regs'.iser j = regs.iser j &&& w) ∨
    ∃ l locks i, f.locks = l :: locks ∧ l.stage = .setting i ∧
      regs' = setEnableChunk (l.mask masks) i regs

theorem Frame.exec_stepped {u : RticTask} (h : f.exec P regs u = some (regs', f')) :
    f.Stepped P masks regs regs' f' := by
  obtain ⟨⟨hlocks, -⟩, h⟩ := Option.ite_none_right_eq_some.mp h
  cases h
  have hlocks : f.locks = [] := List.isEmpty_iff.mp hlocks
  refine ⟨⟨?_, ?_, ?_⟩, ?_, Or.inl fun _ => ⟨BitVec.allOnes 32, BitVec.and_allOnes.symm⟩⟩
  · simp [hlocks]
  · simp [hlocks]
  · simp [hlocks]
  · simp [Frame.Free, hlocks]

theorem Stage.entry_cases (priority ceiling : Nat) :
    (entry priority ceiling = .plain ∧ ceiling ≤ priority) ∨
    (entry priority ceiling = .enterFree ∧ priority < ceiling ∧ 4 ≤ ceiling) ∨
    (entry priority ceiling = .clearing 0 ∧ priority < ceiling ∧ ceiling < 4) := by
  unfold entry
  by_cases hp : priority < ceiling
  · by_cases hc : 4 ≤ ceiling
    · exact Or.inr (Or.inl ⟨by rw [if_pos hp, if_pos hc], hp, hc⟩)
    · exact Or.inr (Or.inr ⟨by rw [if_pos hp, if_neg hc], hp, Nat.lt_of_not_le hc⟩)
  · exact Or.inl ⟨if_neg hp, Nat.le_of_not_lt hp⟩

/-- A lock that begins is at a stage of its branch, and has masked nothing. -/
theorem Lock.entered (h : l.stage = .entry l.priority l.ceiling) :
    l.Staged ∧ (∀ i, ¬ l.Cleared i) ∧ ¬ l.IsFree := by
  unfold Staged Cleared IsFree
  rcases Stage.entry_cases l.priority l.ceiling with ⟨he, hle⟩ | ⟨he, hle⟩ | ⟨he, hle⟩
  · rw [h, he]
    exact ⟨hle, fun i h => h, by simp⟩
  · rw [h, he]
    exact ⟨hle, fun i h => h, by simp⟩
  · rw [h, he]
    exact ⟨hle, fun i h => Nat.not_lt_zero i h, by simp⟩

theorem Frame.lock_stepped {resource : Ident} (hf : f.Ok P masks regs)
    (h : f.lock P regs resource = some (regs', f')) : f.Stepped P masks regs regs' f' := by
  unfold Frame.lock at h
  split at h
  · rename_i task e hrunning he
    obtain ⟨⟨hshared, -⟩, h⟩ := Option.ite_none_right_eq_some.mp h
    cases h
    refine ⟨⟨?_, ?_, ?_⟩, ?_, Or.inl fun _ => ⟨BitVec.allOnes 32, BitVec.and_allOnes.symm⟩⟩
    · intro k hk
      rcases List.mem_cons.mp hk with rfl | hk
      · exact ⟨⟨task, hrunning, rfl, hshared⟩, ⟨e, he, rfl⟩, (Lock.entered rfl).1⟩
      · obtain ⟨l, hl, rfl⟩ := List.mem_map.mp hk
        have hok := hf.locks l hl
        exact ⟨hok.task, hok.field, hok.staged⟩
    · intro k hk hsingle
      rcases List.mem_cons.mp hk with rfl | hk
      · -- the new lock is single where there was none
        have hlocks : f.locks = [] := List.isEmpty_iff.mp hsingle
        simp [hlocks]
      · obtain ⟨l, hl, rfl⟩ := List.mem_map.mp hk
        cases hsingle
    · intro k hk hsingle
      rcases List.mem_cons.mp hk with rfl | hk
      · exact fun j hj => absurd hj ((Lock.entered rfl).2.1 j)
      · obtain ⟨l, hl, rfl⟩ := List.mem_map.mp hk
        cases hsingle
    · rintro ⟨k, hk, hsingle, hfree⟩
      rcases List.mem_cons.mp hk with rfl | hk
      · exact absurd hfree (Lock.entered rfl).2.2
      · obtain ⟨l, hl, rfl⟩ := List.mem_map.mp hk
        cases hsingle
  · cases h

theorem Frame.innermost_stepped {step : Lock → Option (Regs × Option Lock)}
    (hstep : ∀ l regs' next, step l = some (regs', next) → l.Stepped masks regs regs' next)
    (hf : f.Ok P masks regs) (h : f.innermost step = some (regs', f')) :
    f.Stepped P masks regs regs' f' := by
  unfold Frame.innermost at h
  split at h
  · rename_i l locks hlocks
    obtain ⟨⟨_, next⟩, hl, heq⟩ := Option.map_eq_some_iff.mp h
    cases heq
    have hs := hstep l _ next hl
    have hmem : l ∈ f.locks := hlocks ▸ List.mem_cons_self
    have hok := hf.locks l hmem
    have hrest : ∀ k ∈ locks, k ∈ f.locks := fun k hk => hlocks ▸ List.mem_cons_of_mem l hk
    -- a lock around another one is not single
    have hother : ∀ k ∈ locks, k.single = false := by
      intro k hk
      by_contra hsingle
      have hone := hf.single k (hrest k hk) (by simpa using hsingle)
      rw [hlocks] at hone
      obtain ⟨rfl, rfl⟩ := List.cons.inj hone
      cases hk
    have hsame : ∀ k ∈ next.toList ++ locks, k.single = true → k ∈ next := by
      intro k hk hsingle
      rcases List.mem_append.mp hk with hk | hk
      · exact Option.mem_toList.mp hk
      · rw [hother k hk] at hsingle
        cases hsingle
    refine ⟨⟨?_, ?_, ?_⟩, ?_, ?_⟩
    · intro k hk
      rcases List.mem_append.mp hk with hk | hk
      · have hk := Option.mem_toList.mp hk
        obtain ⟨hresource, hpriority, hceiling, -⟩ := hs.same k hk
        refine ⟨?_, ?_, hs.staged hok.staged k hk⟩
        · rw [hpriority, hresource]
          exact hok.task
        · rw [hceiling, hresource]
          exact hok.field
      · have := hf.locks k (hrest k hk)
        exact ⟨this.task, this.field, this.staged⟩
    · intro k hk hsingle
      have hnext := hsame k hk hsingle
      have hone := hf.single l hmem ((hs.same k hnext).2.2.2 ▸ hsingle)
      rw [hlocks] at hone
      show next.toList ++ locks = [k]
      rw [Option.mem_def.mp hnext, (List.cons.inj hone).2]
      rfl
    · intro k hk hsingle
      have hk := hsame k hk hsingle
      exact hs.masks (hf.masks l hmem ((hs.same k hk).2.2.2 ▸ hsingle)) k hk
    · rintro ⟨k, hk, hsingle, hfree⟩
      exact hs.free k (hsame k hk hsingle) hfree
    · cases hs.wrote with
      | cleared h => exact Or.inl h
      | set i hstage h => exact Or.inr ⟨l, locks, i, hlocks, hstage, h⟩
  · cases h

theorem Frame.step_stepped (hf : f.Ok P masks regs) (h : f.step P masks regs o = some (regs', f')) :
    f.Stepped P masks regs regs' f' := by
  cases o with
  | exec u => exact exec_stepped h
  | lock resource => exact lock_stepped hf h
  | advance => exact innermost_stepped (fun _ _ _ => Lock.advance_stepped) hf h
  | leave => exact innermost_stepped (fun _ _ _ => Lock.leave_stepped) hf h

/-- Only `set_enable_mask` enables an interrupt. -/
theorem Frame.step_setting (h : f.step P masks regs o = some (regs', f')) {locks : List Lock}
    (hlocks : f.locks = l :: locks) {i : Nat} (hi : l.stage = .setting i) :
    o = .advance ∨ ∀ j, ∃ w, regs'.iser j = regs.iser j &&& w := by
  have hkeep : ∀ j, ∃ w, regs.iser j = regs.iser j &&& w :=
    fun _ => ⟨BitVec.allOnes 32, BitVec.and_allOnes.symm⟩
  cases o with
  | exec u =>
    obtain ⟨-, h⟩ := Option.ite_none_right_eq_some.mp h
    cases h
    exact Or.inr hkeep
  | lock resource =>
    change f.lock P regs resource = _ at h
    unfold Frame.lock at h
    split at h
    · obtain ⟨-, h⟩ := Option.ite_none_right_eq_some.mp h
      cases h
      exact Or.inr hkeep
    · cases h
  | advance => exact Or.inl rfl
  | leave =>
    change f.innermost _ = _ at h
    unfold Frame.innermost Lock.leave at h
    rw [hlocks] at h
    dsimp only at h
    rw [hi] at h
    cases h

/-! ## Steps -/

/-- Every single lock keeps its interrupts out, and a global critical section is not preempted. -/
structure Inv (P : Program) (masks : Vector (Mask M) 3) (s : State) : Prop where
  frames : ∀ f ∈ s.frames, f.Ok P masks s.regs
  top : ∀ f frames, s.frames = f :: frames →
    (f.Free → s.regs.primask = true) ∧ ∀ g ∈ frames, ¬ g.Free

theorem inv_init : Inv P masks (.init number P.sub) where
  frames := by
    intro f hf
    rw [List.mem_singleton.mp hf]
    exact ⟨by simp, by simp, by simp⟩
  top := by
    rintro f frames ⟨⟩
    exact ⟨by simp [Frame.Free], by simp⟩

theorem Inv.take {h : RticTask} {irq : Ident} {pended : List Ident} (hs : Inv P masks s)
    (hcan : s.CanTake number nvic irq) :
    Inv P masks { s with pended := pended, frames := .taken h :: s.frames } where
  frames := by
    intro f hf
    rcases List.mem_cons.mp hf with rfl | hf
    · exact ⟨by simp [Frame.taken], by simp [Frame.taken], by simp [Frame.taken]⟩
    · exact hs.frames f hf
  top := by
    rintro f frames ⟨⟩
    refine ⟨by simp [Frame.Free, Frame.taken], ?_⟩
    intro g hg hfree
    cases hframes : s.frames with
    | nil =>
      rw [hframes] at hg
      cases hg
    | cons f frames =>
      obtain ⟨hf, hbelow⟩ := hs.top f frames hframes
      rw [hframes] at hg
      rcases List.mem_cons.mp hg with rfl | hg
      · -- no interrupt is taken with PRIMASK set
        have hprimask := hcan.2.2.2
        rw [hf hfree] at hprimask
        cases hprimask
      · exact hbelow g hg hfree

theorem Inv.op (hs : Inv P masks s) (ho : EnablesUnmasked masks s (.op o))
    {frames : List Frame} (hframes : s.frames = f :: frames)
    (h : f.step P masks s.regs o = some (regs', f')) :
    Inv P masks { s with regs := regs', frames := f' :: frames } := by
  have hok := hs.frames
  rw [hframes] at hok
  have hstepped := Frame.step_stepped (hok f List.mem_cons_self) h
  refine ⟨?_, ?_⟩
  · intro g hg
    rcases List.mem_cons.mp hg with rfl | hg
    · exact hstepped.ok
    have hgok := hok g (List.mem_cons_of_mem f hg)
    refine ⟨hgok.locks, hgok.single, ?_⟩
    intro k hk hsingle
    have hmasks := hgok.masks k hk hsingle
    rcases hstepped.wrote with hwrote | ⟨l, locks, i, hlocks, hstage, hwrote⟩
    · exact Wrote.keeps (l := k) (.cleared hwrote) hmasks fun i hi hcleared => by
        unfold Lock.Cleared at hcleared
        rw [hi] at hcleared
        cases hcleared
    · rcases Frame.step_setting h hlocks hstage with rfl | hkeep
      · refine Wrote.keeps (.set i hstage hwrote) hmasks ?_
        intro j hj hcleared
        have hword : s.enables masks (.op .advance) = some (j, (l.mask masks).chunk j) := by
          simp [State.enables, hframes, hlocks, hj]
        exact ho _ hword g (by rw [hframes]; exact hg) k hk hsingle hcleared
      · exact Wrote.keeps (l := k) (.cleared hkeep) hmasks fun i hi hcleared => by
          unfold Lock.Cleared at hcleared
          rw [hi] at hcleared
          cases hcleared
  · rintro g below ⟨⟩
    exact ⟨hstepped.free, (hs.top f frames hframes).2⟩

theorem Inv.step (hs : Inv P masks s) (ha : EnablesUnmasked masks s a)
    (h : s.step P number nvic masks a = some t) : Inv P masks t := by
  cases a with
  | pend irq =>
    cases h
    exact ⟨hs.frames, hs.top⟩
  | take irq =>
    change s.take P number nvic irq = some t at h
    unfold State.take at h
    split at h
    · obtain ⟨hcan, h⟩ := Option.ite_none_right_eq_some.mp h
      cases h
      exact hs.take hcan
    · cases h
  | op o =>
    change s.op P masks o = some t at h
    unfold State.op at h
    split at h
    · rename_i f frames hframes
      obtain ⟨r, hr, rfl⟩ := Option.map_eq_some_iff.mp h
      exact hs.op ha hframes hr
    · cases h
  | ret =>
    change s.ret = some t at h
    unfold State.ret at h
    split at h
    · rename_i f frames hframes
      obtain ⟨-, h⟩ := Option.ite_none_right_eq_some.mp h
      cases h
      have hbelow := (hs.top f frames hframes).2
      refine ⟨fun g hg => hs.frames g (hframes ▸ List.mem_cons_of_mem f hg), ?_⟩
      rintro g rest rfl
      refine ⟨fun hfree => absurd hfree (hbelow g List.mem_cons_self), ?_⟩
      exact fun k hk => hbelow k (List.mem_cons_of_mem g hk)
    · cases h

/-- What is in the mask of a single lock cannot be taken. -/
theorem Inv.kept_out (hs : Inv P masks s) (hf : f ∈ s.frames) (hl : l ∈ f.locks)
    (hsingle : l.single = true) (hinside : l.inside = true) {irq : Ident}
    (hirq : (l.priority < l.ceiling ∧ 4 ≤ l.ceiling) ∨
      isException irq = false ∧ l.priority < l.ceiling ∧ (l.mask masks).bit (number irq) = true) :
    ¬ s.CanTake number nvic irq := by
  rintro ⟨-, henabled, -, hprimask⟩
  have hok := (hs.frames f hf).locks l hl
  have hstaged := hok.staged
  unfold Lock.inside at hinside
  unfold Lock.Staged at hstaged
  split at hinside
  · -- the lock masks nothing
    rename_i hst
    rw [hst] at hstaged
    dsimp only at hstaged
    omega
  · -- a global critical section
    rename_i active hst
    cases hframes : s.frames with
    | nil =>
      rw [hframes] at hf
      cases hf
    | cons g frames =>
      obtain ⟨htop, hbelow⟩ := hs.top g frames hframes
      have hfree : f.Free := ⟨l, hl, hsingle, active, hst⟩
      rw [hframes] at hf
      rcases List.mem_cons.mp hf with rfl | hf
      · rw [htop hfree] at hprimask
        cases hprimask
      · exact hbelow f hf hfree
  · -- the interrupts of the mask are disabled
    rename_i hst
    rw [hst] at hstaged
    rcases hirq with hirq | ⟨hexception, -, hbit⟩
    · dsimp only at hstaged
      omega
    · have hcleared : l.Cleared (number irq / 32) := by
        unfold Lock.Cleared
        rw [hst]
        trivial
      have hword := (hs.frames f hf).masks l hl hsingle _ hcleared
      have hzero : (s.regs.iser (number irq / 32) &&&
          (l.mask masks).chunk (number irq / 32)).getLsbD (number irq % 32) = false := by
        rw [hword]
        exact BitVec.getLsbD_zero
      rw [BitVec.getLsbD_and] at hzero
      rw [hexception] at henabled
      rcases henabled with henabled | henabled
      · cases henabled
      · have hbit' : ((l.mask masks).chunk (number irq / 32)).getLsbD (number irq % 32) = true :=
          hbit
        rw [Regs.enabled] at henabled
        rw [henabled, hbit'] at hzero
        cases hzero
  · cases hinside

/-- **A sharer above the priority of a single lock cannot be taken**, an exception only if the lock
disables all interrupts. -/
theorem Inv.sharer_kept_out (hs : Inv P masks s) (hmasks : TableOf number P.sub masks)
    (hceiling : ∀ resource e, P.sub.getField resource = some e →
      e.priority = Core.ceiling P.sub.tasks resource)
    (hf : f ∈ s.frames) {t : RticTask} (hrunning : f.running = some t) (hl : l ∈ f.locks)
    (hsingle : l.single = true) (hinside : l.inside = true) {irq : Ident} {u : RticTask}
    (hmem : u ∈ P.sub.tasks) (hbinds : u.args.binds = some irq)
    (hsharer : ∃ v ∈ P.executes (some u), l.resource ∈ v.args.shared)
    (hlt : t.args.priority < u.args.priority)
    (hexception : isException irq = true → 4 ≤ P.ceiling l.resource) :
    ¬ s.CanTake number nvic irq := by
  obtain ⟨v, hv, hshared⟩ := hsharer
  have hok := (hs.frames f hf).locks l hl
  obtain ⟨e, he, heq⟩ := hok.field
  have hfield : P.ceiling l.resource = l.ceiling := by
    rw [Program.ceiling, he, heq]
    rfl
  have hle := Program.le_ceiling_of_executes he (hceiling _ _ he) hmem hv hshared
  obtain ⟨t', ht', hpriority, -⟩ := hok.task
  rw [hrunning] at ht'
  cases ht'
  rw [← hpriority] at hlt
  rw [hfield] at hle hexception
  have hp : l.priority < l.ceiling := Nat.lt_of_lt_of_le hlt hle
  refine hs.kept_out hf hl hsingle hinside ?_
  by_cases hc : 4 ≤ l.ceiling
  · exact Or.inl ⟨hp, hc⟩
  · -- the level of the sharer is in the range of the mask
    have hnone : isException irq = false := by
      by_contra hne
      exact hc (hexception (by simpa using hne))
    have hasU8 : asU8 l.priority = l.priority ∧ asU8 l.ceiling = l.ceiling :=
      ⟨Nat.mod_eq_of_lt (by omega), Nat.mod_eq_of_lt (by omega)⟩
    refine Or.inr ⟨hnone, hp, ?_⟩
    rw [Lock.mask, hasU8.1, hasU8.2]
    refine (hmasks _ _ _ (by omega)).mpr ⟨u, ?_, hlt, hle, by rw [hbinds]; rfl⟩
    refine List.mem_filter.mpr ⟨hmem, ?_⟩
    rw [hbinds]
    simp [hnone]

/-- In a run in which no other context enables what a single lock has masked, the locks keep their
interrupts out. -/
theorem inv_exec {as : List Action}
    (hexec : (machine P number nvic masks).exec (.init number P.sub) as = some s)
    (halong : (machine P number nvic masks).Along (EnablesUnmasked masks) (.init number P.sub) as) :
    Inv P masks s :=
  halong.invariant (fun _ _ _ hs ha hst => hs.step ha hst) inv_init hexec

end

/-- **A single source-masking lock keeps the sharers of higher priority out**, in every run in which
no other context enables what it has masked; a sharer bound to an exception is kept out only by a
global critical section. -/
theorem source_mask_keeps_sharers_out {args : AppArgs} {items : List Item} {app app' : App}
    {analysis : Analysis} (hparse : App.parse args items = .ok app)
    (hrun : Analysis.run app = .ok (app', analysis)) (P : Program) (hsub : P.sub ∈ app'.subApps)
    (number : Ident → Nat) :
    ∃ masks, sourceMaskGlobals number P.sub = .ok masks ∧
      ∀ nvic as s, (machine P number nvic masks).exec (.init number P.sub) as = some s →
        (machine P number nvic masks).Along (EnablesUnmasked masks) (.init number P.sub) as →
          ∀ f ∈ s.frames, ∀ t l, f.running = some t → l ∈ f.locks → l.single = true →
            l.inside = true → ∀ irq u, P.handler irq = some u →
              (∃ v ∈ P.executes (some u), l.resource ∈ v.args.shared) →
              t.args.priority < u.args.priority →
              (isException irq = true → 4 ≤ P.ceiling l.resource) →
              ¬ s.CanTake number nvic irq := by
  obtain ⟨masks, hglobals, hmasks⟩ := sourceMaskGlobals_spec number P.sub
  refine ⟨masks, hglobals, ?_⟩
  intro nvic as s hexec halong f hf t l hrunning hl hsingle hinside irq u hu hsharer hlt hexception
  obtain ⟨hmem, hbinds⟩ := Program.handler_eq_some hu
  exact (inv_exec hexec halong).sharer_kept_out hmasks
    (fun _ _ he => Analysis.run_ceiling hparse hrun hsub he) hf hrunning hl hsingle hinside hmem
    hbinds hsharer hlt hexception

/-! ## A sharer bound to an interrupt or to an exception -/

/-- Two tasks of priorities 1 and 2 that share a resource. -/
def twoSharers (binds : Ident) : List Item :=
  [.init "init" none,
    .shared "Shared" none [some "r"],
    .task "A" { binds := some "I1", shared := some ["r"] },
    .task "B" { binds := some binds, priority := some 2, shared := some ["r"] }]

def sharerTask (name binds : Ident) (priority : Nat) : RticTask where
  args := {
    binds := some binds
    priority
    shared := ["r"]
    core := 0
    taskTrait := hwtTraitTy
    initGenerated := false }
  name := name

def sharerA : RticTask := sharerTask "A" "I1" 1

def twoSharersApp (binds : Ident) (ceiling : Nat) : App where
  args := { pacs := ["pac"], cores := 1 }
  subApps := [{
    core := 0
    shared := some ⟨0, "Shared", [⟨"r", ceiling⟩]⟩
    init := ⟨0, "init"⟩
    postInit := none
    idle := none
    tasks := [sharerA, sharerTask "B" binds 2] }]

def twoSharersSub (binds : Ident) : SubApp where
  core := 0
  shared := some ⟨0, "Shared", [⟨"r", 2⟩]⟩
  init := ⟨0, "init"⟩
  postInit := none
  idle := none
  tasks := [sharerA, sharerTask "B" binds 2]

theorem twoSharers_nodup {binds : Ident} (hbinds : "I1" ≠ binds) :
    ((twoSharersSub binds).tasks.filterMap (·.args.binds)).Nodup := by
  show ["I1", binds].Nodup
  simp [hbinds]

def twoSharersProgram (binds : Ident) (hbinds : "I1" ≠ binds) : Program :=
  .ofHandlers (twoSharersSub binds) (twoSharers_nodup hbinds)

def sharerNumber (irq : Ident) : Nat := ["I0", "I1", "I2"].idxOf irq

/-- The first task is in the closure of its lock, and the interrupt of the second one is pended. -/
def lockedRun (binds : Ident) : List Action :=
  [.pend "I1", .take "I1", .op (.exec sharerA), .op (.lock "r"), .op .advance, .op .advance,
    .pend binds]

/-- The first task is in its lock. -/
def State.locked (s : State) : Bool :=
  s.frames.any fun f => f.running = some sharerA ∧
    f.locks.any fun l => l.single ∧ l.inside ∧ l.resource = "r"

/-- Bound to an interrupt of the NVIC the second task is kept out. -/
theorem source_mask_keeps_sharers_out_run :
    ∃ nvic masks s, (twoSharersProgram "I2" (by decide)).boot 2 = .ok nvic ∧
      sourceMaskGlobals sharerNumber (twoSharersProgram "I2" (by decide)).sub = .ok masks ∧
      (machine (twoSharersProgram "I2" (by decide)) sharerNumber nvic masks).exec
        (.init sharerNumber (twoSharersProgram "I2" (by decide)).sub) (lockedRun "I2") = some s ∧
      s.pended = ["I2"] ∧ ¬ s.CanTake sharerNumber nvic "I2" := by
  have hparse : App.parse ⟨["pac"], 1⟩ (twoSharers "I2") = .ok (twoSharersApp "I2" 0) := by
    decide +kernel
  have hrun : Analysis.run (twoSharersApp "I2" 0) = .ok (twoSharersApp "I2" 2, _) := rfl
  obtain ⟨masks, hmasks, h⟩ := source_mask_keeps_sharers_out hparse hrun
    (twoSharersProgram "I2" (by decide)) List.mem_cons_self sharerNumber
  have hexec : ((twoSharersProgram "I2" (by decide)).boot 2).map (fun nvic =>
      (sourceMaskGlobals sharerNumber (twoSharersProgram "I2" (by decide)).sub).map fun masks =>
        (((machine (twoSharersProgram "I2" (by decide)) sharerNumber nvic masks).exec
          (.init sharerNumber (twoSharersProgram "I2" (by decide)).sub) (lockedRun "I2")).map
            fun s => (s.locked, s.pended),
          decide ((machine (twoSharersProgram "I2" (by decide)) sharerNumber nvic masks).Along
            (EnablesUnmasked masks) (.init sharerNumber (twoSharersProgram "I2" (by decide)).sub)
              (lockedRun "I2")))) = .ok (.ok (some (true, ["I2"]), true)) := by
    decide +kernel
  obtain ⟨nvic, hboot, hexec⟩ := map_eq_ok.mp hexec
  rw [hmasks] at hexec
  obtain ⟨hexec, halong⟩ := Prod.mk.inj (Except.ok.inj hexec)
  obtain ⟨s, hs, hobs⟩ := Option.map_eq_some_iff.mp hexec
  obtain ⟨hlocked, hpended⟩ := Prod.mk.inj hobs
  refine ⟨nvic, masks, s, hboot, hmasks, hs, hpended, ?_⟩
  obtain ⟨f, hf, hrunning⟩ := List.any_eq_true.mp hlocked
  obtain ⟨hrunning, hlocks⟩ := of_decide_eq_true hrunning
  obtain ⟨l, hl, hlock⟩ := List.any_eq_true.mp hlocks
  obtain ⟨hsingle, hinside, hresource⟩ := of_decide_eq_true hlock
  refine h nvic _ s hs (of_decide_eq_true halong) f hf sharerA l hrunning hl hsingle hinside "I2"
    (sharerTask "B" "I2" 2) (by decide) ?_ (by decide) fun h => absurd h (by decide)
  rw [hresource]
  exact ⟨sharerTask "B" "I2" 2, List.mem_cons_self, List.mem_cons_self⟩

/-- Bound to SysTick the second task preempts the lock. -/
theorem source_mask_exception :
    ∃ app app' analysis nvic masks s,
      App.parse ⟨["pac"], 1⟩ (twoSharers "SysTick") = .ok app ∧
      Analysis.run app = .ok (app', analysis) ∧ preCodegenValidation app' = .ok () ∧
      (twoSharersProgram "SysTick" (by decide)).sub ∈ app'.subApps ∧
      (twoSharersProgram "SysTick" (by decide)).boot 2 = .ok nvic ∧
      sourceMaskGlobals sharerNumber (twoSharersProgram "SysTick" (by decide)).sub = .ok masks ∧
      (machine (twoSharersProgram "SysTick" (by decide)) sharerNumber nvic masks).exec
        (.init sharerNumber (twoSharersProgram "SysTick" (by decide)).sub)
          (lockedRun "SysTick") = some s ∧
      s.locked = true ∧
      (twoSharersProgram "SysTick" (by decide)).handler "SysTick" =
        some (sharerTask "B" "SysTick" 2) ∧
      s.CanTake sharerNumber nvic "SysTick" := by
  have hparse : App.parse ⟨["pac"], 1⟩ (twoSharers "SysTick") =
      .ok (twoSharersApp "SysTick" 0) := by
    decide +kernel
  have hrun : Analysis.run (twoSharersApp "SysTick" 0) = .ok (twoSharersApp "SysTick" 2, _) := rfl
  have hexec : ((twoSharersProgram "SysTick" (by decide)).boot 2).map (fun nvic =>
      (sourceMaskGlobals sharerNumber (twoSharersProgram "SysTick" (by decide)).sub).map fun masks =>
        ((machine (twoSharersProgram "SysTick" (by decide)) sharerNumber nvic masks).exec
          (.init sharerNumber (twoSharersProgram "SysTick" (by decide)).sub)
            (lockedRun "SysTick")).map fun s =>
              (s.locked, decide (s.CanTake sharerNumber nvic "SysTick"))) =
        .ok (.ok (some (true, true))) := by
    decide +kernel
  obtain ⟨nvic, hboot, hexec⟩ := map_eq_ok.mp hexec
  obtain ⟨masks, hmasks, hexec⟩ := map_eq_ok.mp hexec
  obtain ⟨s, hs, hobs⟩ := Option.map_eq_some_iff.mp hexec
  obtain ⟨hlocked, hcan⟩ := Prod.mk.inj hobs
  exact ⟨_, _, _, nvic, masks, s, hparse, hrun, rfl, List.mem_cons_self, hboot, hmasks, hs, hlocked,
    by decide, of_decide_eq_true hcan⟩

end Rticx.CortexM.SourceMask
