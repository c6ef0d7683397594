import Mathlib.Data.Nat.Basic
import Rticx.CortexM.Basepri
import Rticx.Lib.Ceiling

/-!
# Mutual exclusion on the BASEPRI path

Two invariants. `Restoring` relates the registers to the contexts: from the bottom up, each lock
and each handler found what those below it had left, so a lock and `run` restore what they found.
It holds in every run.

`Exclusive` is the stack discipline of `Lib.Ceiling` with the priorities as levels. A lock has to
mask every interrupt up to the ceiling of its resource for it, but `CEILING as u8` is the ceiling
only as far as that fits the priority bits of the device. `post_init` checks this for the
interrupts in use, while the ceiling counts the tasks that are bound to none as well. So it is kept
by the runs that lock no resource with a ceiling above `1 << NVIC_PRIO_BITS`.
-/

namespace Rticx.CortexM.Basepri

open Rticx.Core Lib Lib.Except

/-! ## Masks -/

/-- Everything that `r` masks is masked. -/
def Regs.Le (r r' : Regs) : Prop := ∀ hw, r.Masks hw → r'.Masks hw

section

variable {r r' r'' : Regs} {b c : Nat}

theorem Regs.Le.refl (r : Regs) : r.Le r := fun _ h => h

theorem Regs.Le.trans (h : r.Le r') (h' : r'.Le r'') : r.Le r'' := fun hw hr => h' hw (h hw hr)

theorem Regs.Masks.mono {hw hw' : Nat} (h : r.Masks hw) (hle : hw ≤ hw') : r.Masks hw' := by
  rcases h with h | ⟨h0, h⟩
  · exact Or.inl h
  · exact Or.inr ⟨h0, Nat.le_trans h hle⟩

theorem Regs.le_writeBasepriMax (r : Regs) (value : Nat) : r.Le (r.writeBasepriMax value) := by
  intro hw h
  unfold writeBasepriMax
  split
  · rename_i hraise
    rcases h with h | ⟨h0, h⟩
    · exact Or.inl h
    · refine Or.inr ⟨hraise.1, ?_⟩
      rcases hraise.2 with hz | hlt
      · exact absurd hz h0
      · exact Nat.le_trans (Nat.le_of_lt hlt) h
  · exact h

theorem Regs.writeBasepriMax_masks {value : Nat} (hpos : 0 < value) :
    (r.writeBasepriMax value).Masks value := by
  unfold writeBasepriMax
  split
  · exact Or.inr ⟨Nat.pos_iff_ne_zero.mp hpos, Nat.le_refl _⟩
  · rename_i hkeep
    refine Or.inr ⟨?_, ?_⟩
    · intro h0
      exact hkeep ⟨Nat.pos_iff_ne_zero.mp hpos, Or.inl h0⟩
    · by_contra hlt
      exact hkeep ⟨Nat.pos_iff_ne_zero.mp hpos, Or.inr (Nat.lt_of_not_le hlt)⟩

theorem Regs.writeBasepriMax_restore (r : Regs) (value : Nat) :
    { r.writeBasepriMax value with basepri := r.basepri } = r := by
  unfold writeBasepriMax
  split
  · rfl
  · rfl

theorem Regs.writeBasepriMax_le {value bound : Nat} (hr : r.basepri ≤ bound)
    (hv : value ≤ bound) : (r.writeBasepriMax value).basepri ≤ bound := by
  unfold writeBasepriMax
  split
  · exact hv
  · exact hr

theorem Regs.disable_restore (r : Regs) :
    (if !r.primask then { r with primask := false } else { r with primask := true }) = r := by
  obtain ⟨basepri, primask⟩ := r
  cases primask with
  | false => rfl
  | true => rfl

/-! ## The registers under a lock -/

/-- What the steps of a lock so far have made of the registers it found. -/
def Lock.Leaves (b : Nat) (l : Lock) (regs : Regs) : Prop :=
  match l.stage with
  | .enter => regs = l.found
  | .basepriRead current => regs = l.found ∧ current = l.found.basepri ∧ l.ceiling ≠ 2 ^ b
  | .raised current =>
    regs = l.found.writeBasepriMax (cortexLogical2hw l.ceiling b) ∧ current = l.found.basepri ∧
      l.ceiling ≠ 2 ^ b
  | .primaskRead active => regs = l.found ∧ active = !l.found.primask ∧ l.ceiling = 2 ^ b
  | .free active =>
    regs = { l.found with primask := true } ∧ active = !l.found.primask ∧ l.ceiling = 2 ^ b

variable {l l' : Lock} {regs regs' : Regs}

theorem Lock.Leaves.le (h : l.Leaves b regs) : l.found.Le regs := by
  unfold Lock.Leaves at h
  split at h
  · exact h ▸ Regs.Le.refl _
  · exact h.1 ▸ Regs.Le.refl _
  · exact h.1 ▸ Regs.le_writeBasepriMax _ _
  · exact h.1 ▸ Regs.Le.refl _
  · intro hw _
    exact Or.inl (by rw [h.1])

/-- In the closure everything up to the ceiling is masked. -/
theorem Lock.Leaves.masks (hb : PrioBits b) (h : l.Leaves b regs) (hinside : l.inside = true)
    (h₁ : 1 ≤ l.ceiling) (hle : l.ceiling ≤ 2 ^ b) :
    regs.Masks (cortexLogical2hw l.ceiling b) := by
  unfold Lock.Leaves at h
  unfold Lock.inside at hinside
  split at h
  · rename_i hst
    rw [hst] at hinside
    cases hinside
  · rename_i hst
    rw [hst] at hinside
    cases hinside
  · rw [h.1]
    exact Regs.writeBasepriMax_masks
      (cortexLogical2hw_pos hb h₁ (Nat.lt_of_le_of_ne hle h.2.2))
  · rename_i hst
    rw [hst] at hinside
    cases hinside
  · exact Or.inl (by rw [h.1])

theorem Lock.Leaves.basepri_le (hb : PrioBits b) (h : l.Leaves b regs)
    (hfound : l.found.basepri ≤ cortexLogical2hw 1 b) : regs.basepri ≤ cortexLogical2hw 1 b := by
  unfold Lock.Leaves at h
  split at h
  · exact h ▸ hfound
  · exact h.1 ▸ hfound
  · rw [h.1]
    exact Regs.writeBasepriMax_le hfound (cortexLogical2hw_le_one hb _)
  · exact h.1 ▸ hfound
  · rw [h.1]
    exact hfound

theorem Lock.Leaves.advance (h : l.Leaves b regs) (hstep : l.advance b regs = some (regs', l')) :
    l'.Leaves b regs' ∧ l'.found = l.found := by
  unfold Lock.advance at hstep
  unfold Lock.Leaves at h
  split at hstep
  · rename_i hst
    rw [hst] at h
    subst h
    split at hstep
    · cases hstep
      exact ⟨⟨rfl, rfl, ‹_›⟩, rfl⟩
    · cases hstep
      exact ⟨⟨rfl, rfl, ‹_›⟩, rfl⟩
  · rename_i hst
    rw [hst] at h
    cases hstep
    exact ⟨⟨by rw [h.1], h.2⟩, rfl⟩
  · rename_i hst
    rw [hst] at h
    cases hstep
    exact ⟨⟨by rw [h.1], h.2⟩, rfl⟩
  · cases hstep
  · cases hstep

/-- A lock leaves the registers as it found them. -/
theorem Lock.Leaves.leave (h : l.Leaves b regs) (hstep : l.leave regs = some regs') :
    regs' = l.found := by
  unfold Lock.leave at hstep
  unfold Lock.Leaves at h
  split at hstep
  · rename_i hst
    rw [hst] at h
    obtain ⟨rfl, rfl, -⟩ := h
    cases hstep
    exact Regs.writeBasepriMax_restore _ _
  · rename_i hst
    rw [hst] at h
    obtain ⟨rfl, rfl, -⟩ := h
    cases hstep
    exact Regs.disable_restore _
  · cases hstep

/-! ## Chains -/

/-- Each lock found the registers as the locks around it had left them. -/
def LockChain (b : Nat) (base : Regs) : List Lock → Regs → Prop
  | [], regs => regs = base
  | l :: locks, regs => LockChain b base locks l.found ∧ l.Leaves b regs

/-- Each context found the registers as the contexts below it had left them. -/
def Chain (b : Nat) : List Frame → Regs → Prop
  | [], regs => regs = .reset
  | f :: frames, regs => LockChain b f.found f.locks regs ∧ Chain b frames f.found

variable {base : Regs} {locks : List Lock} {frames : List Frame}

theorem LockChain.le (h : LockChain b base locks regs) : base.Le regs := by
  induction locks generalizing regs with
  | nil => exact h ▸ Regs.Le.refl _
  | cons l locks ih => exact (ih h.1).trans h.2.le

theorem LockChain.masks (hb : PrioBits b) (h : LockChain b base locks regs) (hl : l ∈ locks)
    (hinside : l.inside = true) (h₁ : 1 ≤ l.ceiling) (hle : l.ceiling ≤ 2 ^ b) :
    regs.Masks (cortexLogical2hw l.ceiling b) := by
  induction locks generalizing regs with
  | nil => cases hl
  | cons k locks ih =>
    rcases List.mem_cons.mp hl with rfl | hl
    · exact h.2.masks hb hinside h₁ hle
    · exact h.2.le _ (ih h.1 hl)

theorem LockChain.basepri_le (hb : PrioBits b) (h : LockChain b base locks regs)
    (hbase : base.basepri ≤ cortexLogical2hw 1 b) : regs.basepri ≤ cortexLogical2hw 1 b := by
  induction locks generalizing regs with
  | nil => exact h ▸ hbase
  | cons l locks ih => exact h.2.basepri_le hb (ih h.1)

/-- What is locked stays masked while other contexts run. -/
theorem Chain.masks (hb : PrioBits b) (h : Chain b frames regs) {f : Frame} (hf : f ∈ frames)
    (hl : l ∈ f.locks) (hinside : l.inside = true) (h₁ : 1 ≤ l.ceiling) (hle : l.ceiling ≤ 2 ^ b) :
    regs.Masks (cortexLogical2hw l.ceiling b) := by
  induction frames generalizing regs with
  | nil => cases hf
  | cons g frames ih =>
    rcases List.mem_cons.mp hf with rfl | hf
    · exact h.1.masks hb hl hinside h₁ hle
    · exact h.1.le _ (ih h.2 hf)

/-- BASEPRI never lets less through than the lowest level. -/
theorem Chain.basepri_le (hb : PrioBits b) (h : Chain b frames regs) :
    regs.basepri ≤ cortexLogical2hw 1 b := by
  induction frames generalizing regs with
  | nil =>
    cases h
    exact Nat.zero_le _
  | cons f frames ih => exact h.1.basepri_le hb (ih h.2)

end

/-! ## Contexts -/

/-- The priority of a context in the app. -/
def Frame.level (f : Frame) : Nat := (f.handler.map (·.args.priority)).getD 0

/-- Outside the closure of `run` there is no lock, and inside it `run` has what it restores. -/
def Phase.Ok (found : Regs) (locks : List Lock) : Phase → Prop
  | .entry | .left => locks = []
  | .body initial => initial.getD 0 = found.basepri

/-- A context whose registers are accounted for. -/
structure Frame.Ok (P : Program) (f : Frame) : Prop where
  bound : ∀ t, f.handler = some t → t ∈ P.sub.tasks ∧ t.args.binds.isSome = true
  running : ∀ u, f.running = some u → u ∈ P.executes f.handler
  /-- `run` needs not save BASEPRI at the lowest level -/
  lowest : ∀ t, f.handler = some t → asU8 t.args.priority = 1 → f.found.basepri = 0
  phase : f.phase.Ok f.found f.locks

/-- What a step of a context does to its locks. -/
inductive LockStep (P : Program) (b : Nat) (f : Frame) (regs : Regs) (regs' : Regs) :
    Op → List Lock → Prop where
  | keep (o : Op) : LockStep P b f regs regs' o f.locks
  | lock (u : RticTask) (e : SharedElement) (resource : Ident) (hrunning : f.running = some u)
      (hshared : resource ∈ u.args.shared) (he : P.sub.getField resource = some e) :
      LockStep P b f regs regs' (.lock resource)
        (⟨resource, asU8 e.priority, regs, .enter⟩ :: f.locks)
  | advance (l l' : Lock) (locks : List Lock) (hlocks : f.locks = l :: locks)
      (hstep : l.advance b regs = some (regs', l')) :
      LockStep P b f regs regs' .advance (l' :: locks)
  | unlock (l : Lock) (locks : List Lock) (hlocks : f.locks = l :: locks) :
      LockStep P b f regs regs' .unlock locks

/-- The step has accounted for the registers, and what it has left it has left as it found it. -/
structure Frame.Stepped (P : Program) (b : Nat) (f : Frame) (regs : Regs) (o : Op)
    (r : Frame.Result) : Prop where
  ok : r.2.1.Ok P
  handler : r.2.1.handler = f.handler
  found : r.2.1.found = f.found
  chain : LockChain b f.found r.2.1.locks r.1
  exits : ∀ e ∈ r.2.2, e.1 = e.2
  locks : LockStep P b f regs r.1 o r.2.1.locks

section

variable {P : Program} {b : Nat} {regs : Regs} {f : Frame} {r : Frame.Result}

theorem Phase.Ok.body {phase : Phase} {found : Regs} {l : Lock} {locks : List Lock}
    (h : phase.Ok found (l :: locks)) (locks' : List Lock) : phase.Ok found locks' := by
  cases phase with
  | entry => cases h
  | left => cases h
  | body initial => exact h

theorem Frame.Ok.run (hf : f.Ok P) (hchain : LockChain b f.found f.locks regs)
    (h : f.run regs = some r) : f.Stepped P b regs .run r := by
  unfold Frame.run at h
  split at h
  · rename_i t hentry ht
    cases h
    have hlocks : f.locks = [] := by
      have := hf.phase
      rw [hentry] at this
      exact this
    have hregs : regs = f.found := by
      rw [hlocks] at hchain
      exact hchain
    refine ⟨⟨hf.bound, hf.running, hf.lowest, ?_⟩, rfl, rfl, hchain, by simp, .keep _⟩
    show (if asU8 t.args.priority = 1 then none else some regs.basepri).getD 0 = f.found.basepri
    split
    · exact (hf.lowest t ht ‹_›).symm
    · exact congrArg Regs.basepri hregs
  · cases h

theorem Frame.Ok.exec {u : RticTask} (hf : f.Ok P) (hchain : LockChain b f.found f.locks regs)
    (h : f.exec P regs u = some r) : f.Stepped P b regs (.exec u) r := by
  unfold Frame.exec at h
  split at h
  · split at h
    · rename_i hu
      cases h
      refine ⟨⟨hf.bound, ?_, hf.lowest, hf.phase⟩, rfl, rfl, hchain, by simp, .keep _⟩
      intro v hv
      cases hv
      exact hu
    · cases h
  · cases h

theorem Frame.Ok.lock {resource : Ident} (hf : f.Ok P)
    (hchain : LockChain b f.found f.locks regs) (h : f.lock P regs resource = some r) :
    f.Stepped P b regs (.lock resource) r := by
  unfold Frame.lock at h
  split at h
  · rename_i initial u e hbody hrunning he
    split at h
    · rename_i hcan
      cases h
      refine ⟨⟨hf.bound, hf.running, hf.lowest, ?_⟩, rfl, rfl, ⟨hchain, rfl⟩, by simp,
        .lock u e resource hrunning hcan.1 he⟩
      have hphase := hf.phase
      rw [hbody] at hphase
      show f.phase.Ok f.found _
      rw [hbody]
      exact hphase
    · cases h
  · cases h

theorem Frame.Ok.advance (hf : f.Ok P) (hchain : LockChain b f.found f.locks regs)
    (h : f.advance b regs = some r) : f.Stepped P b regs .advance r := by
  unfold Frame.advance at h
  split at h
  · rename_i l locks hlocks
    obtain ⟨⟨regs', l'⟩, hl, rfl⟩ := Option.map_eq_some_iff.mp h
    have hphase := hf.phase
    rw [hlocks] at hchain hphase
    obtain ⟨hleaves, hfound⟩ := hchain.2.advance hl
    refine ⟨⟨hf.bound, hf.running, hf.lowest, hphase.body _⟩, rfl, rfl, ⟨?_, hleaves⟩, by simp,
      .advance l l' locks hlocks hl⟩
    rw [hfound]
    exact hchain.1
  · cases h

theorem Frame.Ok.unlock (hf : f.Ok P) (hchain : LockChain b f.found f.locks regs)
    (h : f.unlock regs = some r) : f.Stepped P b regs .unlock r := by
  unfold Frame.unlock at h
  split at h
  · rename_i l locks hlocks
    obtain ⟨regs', hl, rfl⟩ := Option.map_eq_some_iff.mp h
    have hphase := hf.phase
    rw [hlocks] at hchain hphase
    have hfound : regs' = l.found := hchain.2.leave hl
    refine ⟨⟨hf.bound, hf.running, hf.lowest, hphase.body _⟩, rfl, rfl, ?_, ?_,
      .unlock l locks hlocks⟩
    · show LockChain b f.found locks regs'
      rw [hfound]
      exact hchain.1
    · intro e he
      rw [List.mem_singleton.mp he]
      exact hfound.symm
  · cases h

theorem Frame.Ok.restore (hf : f.Ok P) (hchain : LockChain b f.found f.locks regs)
    (h : f.restore regs = some r) : f.Stepped P b regs .restore r := by
  unfold Frame.restore at h
  split at h
  · rename_i initial t hbody ht hlocks
    cases h
    have hinitial : initial.getD 0 = f.found.basepri := by
      have := hf.phase
      rw [hbody] at this
      exact this
    have hregs : regs = f.found := by
      rw [hlocks] at hchain
      exact hchain
    have hfound : { regs with basepri := initial.getD 0 } = f.found := by
      rw [hinitial, hregs]
    refine ⟨⟨hf.bound, by simp, hf.lowest, hlocks⟩, rfl, rfl, ?_, ?_, .keep _⟩
    · show LockChain b f.found f.locks _
      rw [hlocks]
      exact hfound
    · intro e he
      rw [List.mem_singleton.mp he]
      exact hfound.symm
  · cases h

/-- **A step of a context keeps its registers accounted for.** -/
theorem Frame.Ok.step {o : Op} (hf : f.Ok P) (hchain : LockChain b f.found f.locks regs)
    (h : f.step P b regs o = some r) : f.Stepped P b regs o r := by
  cases o with
  | run => exact hf.run hchain h
  | exec u => exact hf.exec hchain h
  | lock resource => exact hf.lock hchain h
  | advance => exact hf.advance hchain h
  | unlock => exact hf.unlock hchain h
  | restore => exact hf.restore hchain h

end

/-! ## Steps -/

section

variable {P : Program} {b : Nat} {nvic : Nvic} {s t : State} {a : Action}

/-- What a step does to the registers and the contexts. -/
inductive Step (P : Program) (b : Nat) (nvic : Nvic) (s : State) : Action → State → Prop where
  | pend (irq : Ident) (pended : List Ident) :
      Step P b nvic s (.pend irq) { s with pended := pended }
  | take (irq : Ident) (h : RticTask) (pended : List Ident) (hirq : P.handler irq = some h)
      (hcan : s.CanTake nvic irq) :
      Step P b nvic s (.take irq)
        { s with pended := pended, frames := .taken h s.regs :: s.frames }
  | op (o : Op) (f : Frame) (frames : List Frame) (r : Frame.Result)
      (hframes : s.frames = f :: frames) (hstep : f.step P b s.regs o = some r) :
      Step P b nvic s (.op o)
        { s with regs := r.1, frames := r.2.1 :: frames, exits := r.2.2 ++ s.exits }
  | ret (f : Frame) (frames : List Frame) (hframes : s.frames = f :: frames)
      (hleft : f.phase = .left) : Step P b nvic s .ret { s with frames := frames }

theorem State.step_cases (h : s.step P b nvic a = some t) : Step P b nvic s a t := by
  cases a with
  | pend irq =>
    cases h
    exact .pend irq _
  | take irq =>
    change s.take P nvic irq = some t at h
    unfold State.take at h
    split at h
    · rename_i task hirq
      obtain ⟨hcan, h⟩ := Option.ite_none_right_eq_some.mp h
      cases h
      exact .take irq task _ hirq hcan
    · cases h
  | op o =>
    change s.op P b o = some t at h
    unfold State.op at h
    split at h
    · rename_i f frames hframes
      obtain ⟨r, hr, rfl⟩ := Option.map_eq_some_iff.mp h
      exact .op o f frames r hframes hr
    · cases h
  | ret =>
    change s.ret = some t at h
    unfold State.ret at h
    split at h
    · rename_i f frames hframes
      obtain ⟨hleft, h⟩ := Option.ite_none_right_eq_some.mp h
      cases h
      exact .ret f frames hframes hleft
    · cases h

/-! ## Registers are restored -/

/-- The registers are accounted for, and everything has left them as it found them. -/
structure Restoring (P : Program) (b : Nat) (s : State) : Prop where
  chain : Chain b s.frames s.regs
  frames : ∀ f ∈ s.frames, f.Ok P
  exits : ∀ e ∈ s.exits, e.1 = e.2

theorem restoring_init : Restoring P b .init where
  chain := ⟨rfl, rfl⟩
  frames := by
    intro f hf
    rw [List.mem_singleton.mp hf]
    exact ⟨by simp, by simp, by simp, rfl⟩
  exits := by
    intro e he
    cases he

theorem Frame.Ok.taken (hboot : P.boot b = .ok nvic) {irq : Ident}
    {h : RticTask} (hirq : P.handler irq = some h) (hcan : s.CanTake nvic irq)
    (hbasepri : s.regs.basepri ≤ cortexLogical2hw 1 b) : (Frame.taken h s.regs).Ok P where
  bound := by
    intro t ht
    cases ht
    obtain ⟨hmem, hbinds⟩ := Program.handler_eq_some hirq
    exact ⟨hmem, by rw [hbinds]; rfl⟩
  running := by
    intro u hu
    cases hu
  lowest := by
    intro t ht hone
    cases ht
    -- it could not have been taken under any mask
    have hmask := hcan.2.2.2
    rw [Program.boot_priority hboot hirq, hone] at hmask
    by_contra hne
    exact hmask (Or.inr ⟨hne, hbasepri⟩)
  phase := rfl

theorem Restoring.step (hb : PrioBits b) (hboot : P.boot b = .ok nvic) (hs : Restoring P b s)
    (h : Step P b nvic s a t) : Restoring P b t := by
  cases h with
  | pend irq pended => exact ⟨hs.chain, hs.frames, hs.exits⟩
  | take irq h pended hirq hcan =>
    refine ⟨⟨rfl, hs.chain⟩, ?_, hs.exits⟩
    intro f hf
    rcases List.mem_cons.mp hf with rfl | hf
    · exact Frame.Ok.taken hboot hirq hcan (hs.chain.basepri_le hb)
    · exact hs.frames f hf
  | op o f frames r hframes hstep =>
    have hchain := hs.chain
    have hok := hs.frames
    rw [hframes] at hchain hok
    have hstepped := (hok f List.mem_cons_self).step hchain.1 hstep
    refine ⟨⟨?_, ?_⟩, ?_, ?_⟩
    · show LockChain b r.2.1.found r.2.1.locks r.1
      rw [hstepped.found]
      exact hstepped.chain
    · show Chain b frames r.2.1.found
      rw [hstepped.found]
      exact hchain.2
    · intro g hg
      rcases List.mem_cons.mp hg with rfl | hg
      · exact hstepped.ok
      · exact hok g (List.mem_cons_of_mem f hg)
    · intro e he
      rcases List.mem_append.mp he with he | he
      · exact hstepped.exits e he
      · exact hs.exits e he
  | ret f frames hframes hleft =>
    have hchain := hs.chain
    have hok := hs.frames
    rw [hframes] at hchain hok
    refine ⟨?_, fun g hg => hok g (List.mem_cons_of_mem f hg), hs.exits⟩
    -- a handler that has left has no lock, so the registers are as it found them
    have hphase := (hok f List.mem_cons_self).phase
    rw [hleft] at hphase
    have hregs := hchain.1
    rw [show f.locks = [] from hphase] at hregs
    show Chain b frames s.regs
    rw [show s.regs = f.found from hregs]
    exact hchain.2

/-! ## Resources are exclusive -/

def Frame.activity (f : Frame) : Ceiling.Activity Ident Nat := ⟨f.level, f.held⟩

/-- A lock of a context that masks what its resource needs. -/
structure Lock.Fits (P : Program) (b : Nat) (f : Frame) (l : Lock) : Prop where
  ceiling : l.ceiling = P.ceiling l.resource
  supported : P.ceiling l.resource ≤ 2 ^ b
  level : f.level ≤ P.ceiling l.resource

/-- The contexts are an admissible stack, and the locks keep it so. -/
structure Exclusive (P : Program) (b : Nat) (s : State) : Prop where
  locks : ∀ f ∈ s.frames, ∀ l ∈ f.locks, l.Fits P b f
  admissible : Ceiling.Admissible P.ceiling (s.frames.map Frame.activity)

theorem exclusive_init : Exclusive P b .init where
  locks := by
    intro f hf l hl
    rw [List.mem_singleton.mp hf] at hl
    cases hl
  admissible := ⟨by simp [Frame.activity, Frame.held], by simp, trivial⟩

theorem Frame.mem_held {f : Frame} {resource : Ident} :
    resource ∈ f.held ↔ ∃ l ∈ f.locks, l.inside = true ∧ l.resource = resource := by
  unfold Frame.held
  simp [and_assoc]

/-- A handler that can be taken is above the ceiling of everything that is held. -/
theorem Exclusive.start (hb : PrioBits b) (hboot : P.boot b = .ok nvic)
    (hprio : ∀ t ∈ P.sub.tasks, t.args.binds.isSome = true →
      1 ≤ t.args.priority ∧ t.args.priority ≤ 2 ^ b)
    (hr : Restoring P b s) (he : Exclusive P b s) {irq : Ident} {h : RticTask}
    (hirq : P.handler irq = some h) (hcan : s.CanTake nvic irq) :
    ∀ f ∈ s.frames, ∀ resource ∈ f.held, P.ceiling resource < h.args.priority := by
  intro f hf resource hheld
  obtain ⟨l, hl, hinside, rfl⟩ := Frame.mem_held.mp hheld
  obtain ⟨hmem, hbinds⟩ := Program.handler_eq_some hirq
  obtain ⟨h₁, hmax⟩ := hprio h hmem (by rw [hbinds]; rfl)
  have hfits := he.locks f hf l hl
  by_contra hle
  have hle := Nat.le_of_not_lt hle
  have hmasks := hr.chain.masks hb hf hl hinside
    (hfits.ceiling ▸ Nat.le_trans h₁ hle) (hfits.ceiling ▸ hfits.supported)
  rw [hfits.ceiling] at hmasks
  refine hcan.2.2.2 (hmasks.mono ?_)
  rw [Program.boot_priority hboot hirq, asU8_of_le hb hmax]
  exact cortexLogical2hw_le hb h₁ hle hfits.supported

theorem held_cons_inside {f : Frame} {l : Lock} {locks : List Lock} (h : f.locks = l :: locks)
    (hl : l.inside = true) :
    f.held = l.resource :: (locks.filter (·.inside)).map (·.resource) := by
  rw [Frame.held, h, List.filter_cons_of_pos hl, List.map_cons]

theorem held_cons_outside {f : Frame} {l : Lock} {locks : List Lock} (h : f.locks = l :: locks)
    (hl : l.inside = false) : f.held = (locks.filter (·.inside)).map (·.resource) := by
  rw [Frame.held, h, List.filter_cons_of_neg (by simp [hl])]

theorem Lock.advance_same {l l' : Lock} {regs regs' : Regs}
    (h : l.advance b regs = some (regs', l')) :
    l'.resource = l.resource ∧ l'.ceiling = l.ceiling := by
  unfold Lock.advance at h
  split at h
  · split at h
    · cases h
      exact ⟨rfl, rfl⟩
    · cases h
      exact ⟨rfl, rfl⟩
  · cases h
    exact ⟨rfl, rfl⟩
  · cases h
    exact ⟨rfl, rfl⟩
  · cases h
  · cases h

theorem Lock.inside_of_advance {l l' : Lock} {regs regs' : Regs}
    (h : l.advance b regs = some (regs', l')) : l.inside = false := by
  unfold Lock.advance at h
  unfold Lock.inside
  split at h
  · rename_i hst
    rw [hst]
  · rename_i hst
    rw [hst]
  · rename_i hst
    rw [hst]
  · cases h
  · cases h

/-- A context locks only what its level lets it. -/
theorem Frame.Ok.level_le {f : Frame} (hf : f.Ok P)
    (hceiling : ∀ resource e, P.sub.getField resource = some e →
      e.priority = Core.ceiling P.sub.tasks resource)
    {u : RticTask} {e : SharedElement} {resource : Ident} (hrunning : f.running = some u)
    (hshared : resource ∈ u.args.shared) (he : P.sub.getField resource = some e) :
    f.level ≤ P.ceiling resource := by
  have hu := hf.running u hrunning
  unfold Frame.level
  cases hh : f.handler with
  | none => exact Nat.zero_le _
  | some t =>
    rw [hh] at hu
    exact Program.le_ceiling_of_executes he (hceiling resource e he) (hf.bound t hh).1 hu hshared

/-- The step locks no resource whose ceiling the device does not support. -/
def LocksSupported (P : Program) (b : Nat) (_s : State) : Action → Prop
  | .op (.lock resource) => P.ceiling resource ≤ 2 ^ b
  | _ => True

instance (P : Program) (b : Nat) (s : State) (a : Action) : Decidable (LocksSupported P b s a) :=
  match a with
  | .op (.lock resource) => inferInstanceAs (Decidable (P.ceiling resource ≤ 2 ^ b))
  | .op .run | .op (.exec _) | .op .advance | .op .unlock | .op .restore | .pend _ | .take _
  | .ret => isTrue trivial

theorem Exclusive.op (he : Exclusive P b s)
    (hceiling : ∀ resource e, P.sub.getField resource = some e →
      e.priority = Core.ceiling P.sub.tasks resource)
    (hb : PrioBits b) {o : Op} (ho : LocksSupported P b s (.op o)) {f : Frame}
    {frames : List Frame} (hframes : s.frames = f :: frames) (hf : f.Ok P) {r : Frame.Result}
    (hr : f.Stepped P b s.regs o r) :
    (∀ l ∈ r.2.1.locks, l.Fits P b r.2.1) ∧
      Ceiling.Admissible P.ceiling (r.2.1.activity :: frames.map Frame.activity) := by
  obtain ⟨regs', f', exits⟩ := r
  have hlevel : f'.level = f.level := by
    unfold Frame.level
    rw [hr.handler]
  have hlocks : ∀ l ∈ f.locks, l.Fits P b f :=
    he.locks f (hframes ▸ List.mem_cons_self)
  have hfits : ∀ l : Lock, l.Fits P b f → l.Fits P b f' :=
    fun l hl => ⟨hl.ceiling, hl.supported, hlevel ▸ hl.level⟩
  have hadm : Ceiling.Admissible P.ceiling (⟨f.level, f.held⟩ :: frames.map Frame.activity) := by
    have := he.admissible
    rw [hframes] at this
    exact this
  have hlockStep := hr.locks
  show (∀ l ∈ f'.locks, l.Fits P b f') ∧
    Ceiling.Admissible P.ceiling (⟨f'.level, f'.held⟩ :: frames.map Frame.activity)
  rw [hlevel]
  generalize hl' : f'.locks = locks' at hlockStep
  cases hlockStep with
  | keep =>
    have hheld : f'.held = f.held := by rw [Frame.held, hl', Frame.held]
    rw [hheld]
    exact ⟨fun l hl => hfits l (hlocks l hl), hadm⟩
  | lock u e resource hrunning hshared hfield =>
    have hceil : P.ceiling resource = e.priority := by rw [Program.ceiling, hfield]; rfl
    -- a lock that begins holds nothing yet
    have hheld : f'.held = f.held := held_cons_outside hl' rfl
    rw [hheld]
    refine ⟨?_, hadm⟩
    intro l hl
    rcases List.mem_cons.mp hl with rfl | hl
    · have ho : P.ceiling resource ≤ 2 ^ b := ho
      refine hfits _ ⟨?_, ho, ?_⟩
      · rw [hceil] at ho ⊢
        exact asU8_of_le hb ho
      · exact hf.level_le hceiling hrunning hshared hfield
    · exact hfits l (hlocks l hl)
  | advance l l' locks hfl hstep =>
    have hchain := hr.chain
    rw [hl'] at hchain
    have hmem : l ∈ f.locks := hfl ▸ List.mem_cons_self
    have hsame : l'.resource = l.resource ∧ l'.ceiling = l.ceiling := Lock.advance_same hstep
    have hl'fits : l'.Fits P b f := by
      refine ⟨?_, ?_, ?_⟩
      · rw [hsame.1, hsame.2]
        exact (hlocks l hmem).ceiling
      · rw [hsame.1]
        exact (hlocks l hmem).supported
      · rw [hsame.1]
        exact (hlocks l hmem).level
    refine ⟨?_, ?_⟩
    · intro k hk
      rcases List.mem_cons.mp hk with rfl | hk
      · exact hfits _ hl'fits
      · exact hfits k (hlocks k (hfl ▸ List.mem_cons_of_mem l hk))
    · rw [held_cons_outside hfl (Lock.inside_of_advance hstep)] at hadm
      -- it comes to hold the resource in the step that raises the priority
      by_cases hinside : l'.inside = true
      · rw [held_cons_inside hl' hinside]
        exact hadm.acquire hl'fits.level
      · rw [held_cons_outside hl' (Bool.eq_false_iff.mpr hinside)]
        exact hadm
  | unlock l locks hfl =>
    have hheld : f'.held = (f'.locks.filter (·.inside)).map (·.resource) := rfl
    rw [hheld, hl']
    refine ⟨fun k hk => hfits k (hlocks k (hfl ▸ List.mem_cons_of_mem l hk)), ?_⟩
    -- a lock whose closure never began has nothing to release
    by_cases hinside : l.inside = true
    · rw [held_cons_inside hfl hinside] at hadm
      exact hadm.release
    · rw [held_cons_outside hfl (Bool.eq_false_iff.mpr hinside)] at hadm
      exact hadm

theorem Exclusive.step (hb : PrioBits b) (hboot : P.boot b = .ok nvic)
    (hceiling : ∀ resource e, P.sub.getField resource = some e →
      e.priority = Core.ceiling P.sub.tasks resource)
    (hprio : ∀ t ∈ P.sub.tasks, t.args.binds.isSome = true →
      1 ≤ t.args.priority ∧ t.args.priority ≤ 2 ^ b)
    (hs : Restoring P b s) (he : Exclusive P b s) (ha : LocksSupported P b s a)
    (h : Step P b nvic s a t) : Exclusive P b t := by
  cases h with
  | pend irq pended => exact ⟨he.locks, he.admissible⟩
  | take irq h pended hirq hcan =>
    refine ⟨?_, ?_⟩
    · intro f hf l hl
      rcases List.mem_cons.mp hf with rfl | hf
      · cases hl
      · exact he.locks f hf l hl
    · refine he.admissible.start ?_
      intro a ha resource hheld
      obtain ⟨f, hf, rfl⟩ := List.mem_map.mp ha
      exact he.start hb hboot hprio hs hirq hcan f hf resource hheld
  | op o f frames r hframes hstep =>
    have hok := hs.frames f (hframes ▸ List.mem_cons_self)
    have hchain := hs.chain
    rw [hframes] at hchain
    obtain ⟨hlocks, hadm⟩ := he.op hceiling hb ha hframes hok (hok.step hchain.1 hstep)
    refine ⟨?_, hadm⟩
    intro g hg
    rcases List.mem_cons.mp hg with rfl | hg
    · exact hlocks
    · exact he.locks g (hframes ▸ List.mem_cons_of_mem f hg)
  | ret f frames hframes hleft =>
    have hadm := he.admissible
    rw [hframes] at hadm
    exact ⟨fun g hg => he.locks g (hframes ▸ List.mem_cons_of_mem f hg), hadm.finish⟩

theorem Restoring.exec (hb : PrioBits b) (hboot : P.boot b = .ok nvic) {as : List Action}
    (h : (machine P b nvic).exec .init as = some s) : Restoring P b s :=
  (Machine.Reachable.init.exec h).invariant restoring_init
    fun _ _ _ _ hs hst => hs.step hb hboot (State.step_cases hst)

end

/-- **Mutual exclusion on the BASEPRI path.** In every run each lock and each task leaves BASEPRI
and PRIMASK as it found them, and in every run that locks only resources with a supported ceiling
no two contexts are in a critical section of one resource. -/
theorem basepri_mutual_exclusion {args : AppArgs} {items : List Item} {app app' : App}
    {analysis : Analysis} (hparse : App.parse args items = .ok app)
    (hrun : Analysis.run app = .ok (app', analysis)) (P : Program) (hsub : P.sub ∈ app'.subApps)
    {b : Nat} (hb : PrioBits b)
    (hprio : ∀ t ∈ P.sub.tasks, t.args.binds.isSome = true →
      1 ≤ t.args.priority ∧ t.args.priority ≤ 2 ^ b) :
    ∃ nvic, P.boot b = .ok nvic ∧
      ∀ as s, (machine P b nvic).exec .init as = some s →
        (∀ e ∈ s.exits, e.1 = e.2) ∧
        ((machine P b nvic).Along (LocksSupported P b) .init as →
          s.frames.Pairwise fun f g => ∀ resource ∈ f.held, resource ∉ g.held) := by
  have hceiling : ∀ resource e, P.sub.getField resource = some e →
      e.priority = Core.ceiling P.sub.tasks resource :=
    fun resource e he => Analysis.run_ceiling hparse hrun hsub he
  obtain ⟨nvic, hboot⟩ := Program.boot_ok fun t ht hbinds => (hprio t ht hbinds).2
  refine ⟨nvic, hboot, ?_⟩
  intro as s hexec
  refine ⟨(Restoring.exec hb hboot hexec).exits, ?_⟩
  intro halong
  have hinv : Restoring P b s ∧ Exclusive P b s := by
    refine halong.invariant (P := fun s => Restoring P b s ∧ Exclusive P b s) ?_
      ⟨restoring_init, exclusive_init⟩ hexec
    intro s a t hs ha hst
    have hstep := State.step_cases hst
    exact ⟨hs.1.step hb hboot hstep, hs.2.step hb hboot hceiling hprio hs.1 ha hstep⟩
  exact List.pairwise_map.mp hinv.2.admissible.exclusive

/-! ## Runs -/

/-- Two tasks of priorities 2 and 3 that share a resource, one of priority 4, and one that is bound
to no interrupt and never runs, but lists the resource. -/
def sharers (p : Nat) : List Item :=
  [.init "init" none,
    .shared "Shared" none [some "r", some "q"],
    .task "A" { binds := some "I2", priority := some 2, shared := some ["r"] },
    .task "B" { binds := some "I3", priority := some 3, shared := some ["r"] },
    .task "C" { binds := some "I4", priority := some 4, shared := some ["q"] },
    .task "D" { priority := some p, shared := some ["r"] }]

def sharersArgs : AppArgs := { pacs := ["pac"], cores := 1 }

/-- The tasks of `sharers`. -/
def sharersTask (name : Ident) (binds : Option Ident) (priority : Nat) (shared : List Ident) :
    RticTask where
  args := { binds, priority, shared, core := 0, taskTrait := hwtTraitTy, initGenerated := false }
  name := name

def taskA : RticTask := sharersTask "A" (some "I2") 2 ["r"]

def taskB : RticTask := sharersTask "B" (some "I3") 3 ["r"]

def taskC : RticTask := sharersTask "C" (some "I4") 4 ["q"]

def sharersApp (p : Nat) (resources : List SharedElement) : App where
  args := sharersArgs
  subApps := [{
    core := 0
    shared := some ⟨0, "Shared", resources⟩
    init := ⟨0, "init"⟩
    postInit := none
    idle := none
    tasks := [taskA, taskB, taskC, sharersTask "D" none p ["r"]] }]

def sharersSub (p : Nat) : SubApp where
  core := 0
  shared := some ⟨0, "Shared", [⟨"r", max 3 p⟩, ⟨"q", 4⟩]⟩
  init := ⟨0, "init"⟩
  postInit := none
  idle := none
  tasks := [taskA, taskB, taskC, sharersTask "D" none p ["r"]]

theorem sharers_nodup (p : Nat) : ((sharersSub p).tasks.filterMap (·.args.binds)).Nodup := by
  show ["I2", "I3", "I4"].Nodup
  decide

def sharersProgram (p : Nat) : Program := .ofHandlers (sharersSub p) (sharers_nodup p)

theorem sharers_supported (p : Nat) : ∀ t ∈ (sharersProgram p).sub.tasks,
    t.args.binds.isSome = true → 1 ≤ t.args.priority ∧ t.args.priority ≤ 2 ^ 3 := by
  simp [sharersProgram, Program.ofHandlers, sharersSub, taskA, taskB, taskC, sharersTask]

/-- A task is taken, and in the closure of its lock. -/
def inLock (irq : Ident) (task : RticTask) (resource : Ident) : List Action :=
  [.pend irq, .take irq, .op .run, .op (.exec task), .op (.lock resource), .op .advance,
    .op .advance]

/-- A task leaves its lock and returns. -/
def outOfLock : List Action := [.op .unlock, .op .restore, .ret]

/-- The second sharer runs, and then the first, which is preempted in its lock. -/
def preemptedRun : List Action :=
  inLock "I3" taskB "r" ++ outOfLock ++ inLock "I2" taskA "r" ++ inLock "I4" taskC "q"

/-- A run with locks on both resources. -/
theorem basepri_mutual_exclusion_run :
    ∃ nvic s, (sharersProgram 1).boot 3 = .ok nvic ∧
      (machine (sharersProgram 1) 3 nvic).exec .init preemptedRun = some s ∧
      s.frames.map Frame.held = [["q"], ["r"], []] ∧ s.exits.length = 2 ∧
      (∀ e ∈ s.exits, e.1 = e.2) ∧
      s.frames.Pairwise fun f g => ∀ resource ∈ f.held, resource ∉ g.held := by
  have hparse : App.parse sharersArgs (sharers 1) =
      .ok (sharersApp 1 [⟨"r", 0⟩, ⟨"q", 0⟩]) := by decide +kernel
  have hrun : Analysis.run (sharersApp 1 [⟨"r", 0⟩, ⟨"q", 0⟩]) =
      .ok (sharersApp 1 [⟨"r", 3⟩, ⟨"q", 4⟩], _) := rfl
  obtain ⟨nvic, hboot, h⟩ := basepri_mutual_exclusion hparse hrun (sharersProgram 1)
    List.mem_cons_self (b := 3) ⟨by decide, by decide⟩ (sharers_supported 1)
  have hexec : ((sharersProgram 1).boot 3).map (fun nvic =>
      (((machine (sharersProgram 1) 3 nvic).exec .init preemptedRun).map fun s =>
        (s.frames.map Frame.held, s.exits.length),
      decide ((machine (sharersProgram 1) 3 nvic).Along (LocksSupported (sharersProgram 1) 3) .init
        preemptedRun))) = .ok (some ([["q"], ["r"], []], 2), true) := by
    decide +kernel
  rw [hboot] at hexec
  obtain ⟨hexec, halong⟩ := Prod.mk.inj (Except.ok.inj hexec)
  obtain ⟨s, hs, hobs⟩ := Option.map_eq_some_iff.mp hexec
  obtain ⟨hheld, hlength⟩ := Prod.mk.inj hobs
  exact ⟨nvic, s, hboot, hs, hheld, hlength, (h _ s hs).1,
    (h _ s hs).2 (of_decide_eq_true halong)⟩

/-- With the priority 258 in place of 1 the ceiling of the resource is truncated to 2, the level of
the first sharer, so the second one preempts it in its critical section and enters its own. -/
theorem basepri_truncated_ceiling :
    ∃ app app' analysis nvic s, App.parse sharersArgs (sharers 258) = .ok app ∧
      Analysis.run app = .ok (app', analysis) ∧ (sharersProgram 258).sub ∈ app'.subApps ∧
      (∀ t ∈ (sharersProgram 258).sub.tasks, t.args.binds.isSome = true →
        1 ≤ t.args.priority ∧ t.args.priority ≤ 2 ^ 3) ∧
      (sharersProgram 258).boot 3 = .ok nvic ∧
      (machine (sharersProgram 258) 3 nvic).exec .init
        (inLock "I2" taskA "r" ++ inLock "I3" taskB "r") = some s ∧
      ¬ s.frames.Pairwise fun f g => ∀ resource ∈ f.held, resource ∉ g.held := by
  have hparse : App.parse sharersArgs (sharers 258) =
      .ok (sharersApp 258 [⟨"r", 0⟩, ⟨"q", 0⟩]) := by decide +kernel
  have hrun : Analysis.run (sharersApp 258 [⟨"r", 0⟩, ⟨"q", 0⟩]) =
      .ok (sharersApp 258 [⟨"r", 258⟩, ⟨"q", 4⟩], _) := rfl
  have hexec : ((sharersProgram 258).boot 3).map (fun nvic =>
      ((machine (sharersProgram 258) 3 nvic).exec .init
        (inLock "I2" taskA "r" ++ inLock "I3" taskB "r")).map fun s =>
          s.frames.map Frame.held) = .ok (some [["r"], ["r"], []]) := by
    decide +kernel
  obtain ⟨nvic, hboot, hexec⟩ := map_eq_ok.mp hexec
  obtain ⟨s, hs, hheld⟩ := Option.map_eq_some_iff.mp hexec
  refine ⟨_, _, _, nvic, s, hparse, hrun, List.mem_cons_self, sharers_supported 258, hboot, hs, ?_⟩
  intro hexclusive
  have hexclusive : (s.frames.map Frame.held).Pairwise fun a b => ∀ resource ∈ a, resource ∉ b :=
    List.pairwise_map.mpr hexclusive
  rw [hheld] at hexclusive
  revert hexclusive
  decide

end Rticx.CortexM.Basepri
