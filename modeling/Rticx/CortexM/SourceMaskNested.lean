import Rticx.CortexM.SourceMask

/-!
# Nested locks by interrupt source masking

The locks that one task takes, one after the other and inside each other. On exit a lock enables
every interrupt between the priority of the task and its ceiling, not those that it disabled on
entry: the bits of a lock around it and bits that were clear before come on with them. So the locks
of a task restore the enable bits exactly when no masking lock meets a clear bit.
-/

namespace Rticx.CortexM.SourceMask

open Rticx.Core Lib.Except

/-- The locks that a task takes: the first, those inside it, and those after it. -/
inductive Calls where
  | done
  | lock (resource : Ident) (body : Calls) (rest : Calls)

/-- The registers at the entry and at the exit of each lock. -/
abbrev Log := List (Regs × Regs)

/-- Take the locks, with the priority of the task and the ceilings of the resources. -/
def Calls.run {M : Nat} (priority : Nat) (ceiling : Ident → Nat) (masks : Vector (Mask M) 3) :
    Calls → Regs → Log × Regs
  | .done, regs => ([], regs)
  | .lock resource body rest, regs =>
    let l := SourceMask.lock priority (ceiling resource) masks
      (body.run priority ceiling masks) regs
    let after := rest.run priority ceiling masks l.2
    (l.1 ++ (regs, l.2) :: after.1, after.2)

/-- A lock of this ceiling masks in the NVIC. -/
def Masking (priority ceiling : Nat) : Prop := priority < ceiling ∧ ceiling < 4

instance (p c : Nat) : Decidable (Masking p c) :=
  inferInstanceAs (Decidable (_ ∧ _))

/-- Every interrupt that a masking lock of the calls masks is enabled before the first of them, and
none is masked by a masking lock around it as well. -/
def Calls.Restorable (number : Ident → Nat) (sub : SubApp) (priority : Nat) (ceiling : Ident → Nat)
    (enabled : Nat → Bool) : List Nat → Calls → Prop
  | _, .done => True
  | outer, .lock resource body rest =>
    let c := ceiling resource
    (Masking priority c →
      (∀ irq, BoundBetween number sub priority c irq → enabled irq = true) ∧
      ∀ c' ∈ outer, ∀ irq, ¬ BoundBetween number sub priority (min c' c) irq) ∧
    body.Restorable number sub priority ceiling enabled
      (if Masking priority c then c :: outer else outer) ∧
    rest.Restorable number sub priority ceiling enabled outer

section

variable {M : Nat} {masks : Vector (Mask M) 3} {number : Ident → Nat} {sub : SubApp}
  {p c c' : Nat} {ceiling : Ident → Nat} {enabled : Nat → Bool} {outer : List Nat} {regs : Regs}
  {calls : Calls}

theorem BoundBetween.mono {irq : Nat} (h : BoundBetween number sub p c irq) (hle : c ≤ c') :
    BoundBetween number sub p c' irq := by
  obtain ⟨t, ht, hp, hc, hnum⟩ := h
  exact ⟨t, ht, hp, Nat.le_trans hc hle, hnum⟩

/-- The ranges of two locks of one task begin at the same level. -/
theorem BoundBetween.min_iff {irq : Nat} : BoundBetween number sub p (min c' c) irq ↔
    BoundBetween number sub p c irq ∧ BoundBetween number sub p c' irq := by
  constructor
  · intro h
    exact ⟨h.mono (Nat.min_le_right ..), h.mono (Nat.min_le_left ..)⟩
  · rintro ⟨h, h'⟩
    rcases Nat.le_total c' c with hle | hle
    · rw [Nat.min_eq_left hle]
      exact h'
    · rw [Nat.min_eq_right hle]
      exact h

/-- The interrupts that are enabled inside the locks of these ceilings. -/
def EnabledInside (number : Ident → Nat) (sub : SubApp) (p : Nat) (enabled : Nat → Bool)
    (outer : List Nat) (regs : Regs) : Prop :=
  ∀ irq, regs.enabled irq = true ↔
    enabled irq = true ∧ ∀ c ∈ outer, ¬ BoundBetween number sub p c irq

theorem Calls.log_lock {resource : Ident} {body rest : Calls} {l : Log × Regs}
    (hl : SourceMask.lock p (ceiling resource) masks (body.run p ceiling masks) regs = l) :
    (∀ e ∈ ((Calls.lock resource body rest).run p ceiling masks regs).1, e.1 = e.2) ↔
      ((∀ e ∈ l.1, e.1 = e.2) ∧ regs = l.2) ∧
        ∀ e ∈ (rest.run p ceiling masks regs).1, e.1 = e.2 := by
  simp only [Calls.run, hl, List.forall_mem_append, List.forall_mem_cons]
  constructor
  · rintro ⟨hbody, hregs, hrest⟩
    exact ⟨⟨hbody, hregs⟩, hregs ▸ hrest⟩
  · rintro ⟨⟨hbody, hregs⟩, hrest⟩
    exact ⟨hbody, hregs, hregs ▸ hrest⟩

/-- If every lock restores the registers, the calls do. -/
theorem Calls.run_restores (h : ∀ e ∈ (calls.run p ceiling masks regs).1, e.1 = e.2) :
    (calls.run p ceiling masks regs).2 = regs := by
  induction calls generalizing regs with
  | done => rfl
  | lock resource body rest _ ih =>
    obtain ⟨⟨-, hregs⟩, hrest⟩ := (log_lock rfl).mp h
    have hafter := ih hrest
    show (rest.run p ceiling masks _).2 = regs
    rw [← hregs]
    exact hafter

theorem interruptFree_log {body : Calls} {l : Log × Regs}
    (hl : interruptFree (body.run p ceiling masks) regs = l) :
    ((∀ e ∈ l.1, e.1 = e.2) ∧ regs = l.2) ↔
      ∀ e ∈ (body.run p ceiling masks { regs with primask := true }).1, e.1 = e.2 := by
  subst hl
  constructor
  · exact fun h => h.1
  · intro h
    refine ⟨h, ?_⟩
    dsimp only [interruptFree]
    rw [Calls.run_restores h]
    obtain ⟨iser, primask⟩ := regs
    cases primask with
    | true => rfl
    | false => rfl

/-- Enabling a mask undoes disabling it where all of it was enabled. -/
theorem setEnableMask_clearEnableMask {mask : Mask M} :
    regs = setEnableMask mask (clearEnableMask mask regs) ↔
      ∀ irq, mask.bit irq = true → regs.enabled irq = true := by
  constructor
  · intro h irq hbit
    rw [h, setEnableMask_enabled, hbit, Bool.or_true]
  · intro h
    refine Regs.ext_enabled ?_ ?_
    · intro irq
      rw [setEnableMask_enabled, clearEnableMask_enabled]
      cases hbit : mask.bit irq with
      | false => simp
      | true => simp [h irq hbit]
    · rw [setEnableMask_primask, clearEnableMask_primask]

/-- **When locks restore the enable bits**: the induction is on the calls, and the locks around them
have disabled what they mask. -/
theorem Calls.log_iff (hmasks : TableOf number sub masks)
    (hregs : EnabledInside number sub p enabled outer regs) :
    (∀ e ∈ (calls.run p ceiling masks regs).1, e.1 = e.2) ↔
      calls.Restorable number sub p ceiling enabled outer := by
  induction calls generalizing outer regs with
  | done => simp [Calls.run, Calls.Restorable]
  | lock resource body rest ihbody ihrest =>
    rw [log_lock rfl, ihrest hregs, Calls.Restorable, ← and_assoc]
    refine and_congr_left' ?_
    by_cases hmasking : Masking p (ceiling resource)
    · -- the lock masks in the NVIC
      rw [if_pos hmasking]
      obtain ⟨hp, hc⟩ := hmasking
      have hasU8 : asU8 p = p ∧ asU8 (ceiling resource) = ceiling resource :=
        ⟨Nat.mod_eq_of_lt (by omega), Nat.mod_eq_of_lt (by omega)⟩
      have hbit := fun irq => hmasks p (ceiling resource) irq (by omega)
      have hinside : EnabledInside number sub p enabled (ceiling resource :: outer)
          (clearEnableMask (computeMask p (ceiling resource) masks) regs) := by
        intro irq
        rw [clearEnableMask_enabled, Bool.and_eq_true, Bool.not_eq_true', ← Bool.not_eq_true,
          hbit, hregs irq]
        simp only [List.forall_mem_cons]
        tauto
      rw [← ihbody hinside]
      simp only [SourceMask.lock, if_pos hp, if_neg (Nat.not_le.mpr hc), hasU8]
      have hall : (∀ irq, (computeMask p (ceiling resource) masks).bit irq = true →
          regs.enabled irq = true) ↔
          (∀ irq, BoundBetween number sub p (ceiling resource) irq → enabled irq = true) ∧
            ∀ c' ∈ outer, ∀ irq, ¬ BoundBetween number sub p (min c' (ceiling resource)) irq := by
        constructor
        · intro h
          refine ⟨fun irq hirq => ((hregs irq).mp (h irq ((hbit irq).mpr hirq))).1, ?_⟩
          intro c' hc' irq hirq
          obtain ⟨hirq, hirq'⟩ := BoundBetween.min_iff.mp hirq
          exact ((hregs irq).mp (h irq ((hbit irq).mpr hirq))).2 c' hc' hirq'
        · rintro ⟨henabled, houter⟩ irq hirq
          have hirq := (hbit irq).mp hirq
          refine (hregs irq).mpr ⟨henabled irq hirq, ?_⟩
          intro c' hc' hirq'
          exact houter c' hc' irq (BoundBetween.min_iff.mpr ⟨hirq, hirq'⟩)
      constructor
      · rintro ⟨hbody, hleft⟩
        refine ⟨fun _ => hall.mp (setEnableMask_clearEnableMask.mp ?_), hbody⟩
        rw [run_restores hbody] at hleft
        exact hleft
      · rintro ⟨hclear, hbody⟩
        refine ⟨hbody, ?_⟩
        rw [run_restores hbody]
        exact setEnableMask_clearEnableMask.mpr (hall.mpr (hclear ⟨hp, hc⟩))
    · rw [if_neg hmasking]
      simp only [hmasking, false_implies, true_and]
      by_cases hp : p < ceiling resource
      · -- all interrupts are disabled
        have hc : 4 ≤ ceiling resource := by
          by_contra hc
          exact hmasking ⟨hp, Nat.lt_of_not_le hc⟩
        have hfree : EnabledInside number sub p enabled outer { regs with primask := true } := hregs
        rw [← ihbody hfree]
        simp only [SourceMask.lock, if_pos hp, if_pos hc]
        exact interruptFree_log rfl
      · -- nothing is disabled
        rw [← ihbody hregs]
        simp only [SourceMask.lock, if_neg hp]
        constructor
        · exact fun h => h.1
        · exact fun h => ⟨h, (run_restores h).symm⟩

end

/-- **When the locks of a task restore the enable bits.** -/
theorem nested_locks_restore_iff (number : Ident → Nat) (P : Program) :
    ∃ masks, sourceMaskGlobals number P.sub = .ok masks ∧
      ∀ (t : RticTask) (regs : Regs) (calls : Calls),
        (∀ e ∈ (calls.run t.args.priority P.ceiling masks regs).1, e.1 = e.2) ↔
          calls.Restorable number P.sub t.args.priority P.ceiling regs.enabled [] := by
  obtain ⟨masks, hglobals, hmasks⟩ := sourceMaskGlobals_spec number P.sub
  refine ⟨masks, hglobals, ?_⟩
  intro t regs calls
  refine Calls.log_iff hmasks ?_
  intro irq
  simp

/-! ## Two nested locks -/

/-- A task of priority 1 that shares one resource with a task of priority 2 and another one with a
task of priority 3. -/
def nested : List Item :=
  [.init "init" none,
    .shared "Shared" none [some "r", some "q"],
    .task "A" { binds := some "I1", shared := some ["r", "q"] },
    .task "B" { binds := some "I2", priority := some 2, shared := some ["r"] },
    .task "C" { binds := some "I3", priority := some 3, shared := some ["q"] }]

def nestedTask (name binds : Ident) (priority : Nat) (shared : List Ident) : RticTask where
  args := {
    binds := some binds
    priority, shared
    core := 0
    taskTrait := hwtTraitTy
    initGenerated := false }
  name := name

def nestedTaskA : RticTask := nestedTask "A" "I1" 1 ["r", "q"]

def nestedApp (resources : List SharedElement) : App where
  args := { pacs := ["pac"], cores := 1 }
  subApps := [{
    core := 0
    shared := some ⟨0, "Shared", resources⟩
    init := ⟨0, "init"⟩
    postInit := none
    idle := none
    tasks := [nestedTaskA, nestedTask "B" "I2" 2 ["r"], nestedTask "C" "I3" 3 ["q"]] }]

def nestedSub : SubApp where
  core := 0
  shared := some ⟨0, "Shared", [⟨"r", 2⟩, ⟨"q", 3⟩]⟩
  init := ⟨0, "init"⟩
  postInit := none
  idle := none
  tasks := [nestedTaskA, nestedTask "B" "I2" 2 ["r"], nestedTask "C" "I3" 3 ["q"]]

theorem nested_nodup : (nestedSub.tasks.filterMap (·.args.binds)).Nodup := by
  show ["I1", "I2", "I3"].Nodup
  decide

def nestedProgram : Program := .ofHandlers nestedSub nested_nodup

def nestedNumber (irq : Ident) : Nat := ["I0", "I1", "I2", "I3"].idxOf irq

/-- The inner lock enables the interrupt that the outer one has masked. -/
theorem nested_locks_unmask :
    ∃ app app' analysis masks, App.parse ⟨["pac"], 1⟩ nested = .ok app ∧
      Analysis.run app = .ok (app', analysis) ∧ nestedProgram.sub ∈ app'.subApps ∧
      nestedTaskA ∈ nestedProgram.sub.tasks ∧
      sourceMaskGlobals nestedNumber nestedProgram.sub = .ok masks ∧
      ¬ ∀ e ∈ ((Calls.lock "r" (.lock "q" .done .done) .done).run nestedTaskA.args.priority
        nestedProgram.ceiling masks { iser := fun _ => 0b1110, primask := false }).1, e.1 = e.2 := by
  have hparse : App.parse ⟨["pac"], 1⟩ nested = .ok (nestedApp [⟨"r", 0⟩, ⟨"q", 0⟩]) := by
    decide +kernel
  have hrun : Analysis.run (nestedApp [⟨"r", 0⟩, ⟨"q", 0⟩]) =
      .ok (nestedApp [⟨"r", 2⟩, ⟨"q", 3⟩], _) := rfl
  have hlog : (sourceMaskGlobals nestedNumber nestedProgram.sub).map (fun masks =>
      ((Calls.lock "r" (.lock "q" .done .done) .done).run nestedTaskA.args.priority
        nestedProgram.ceiling masks { iser := fun _ => 0b1110, primask := false }).1.map fun e =>
          (e.1.enabled 2, e.2.enabled 2)) = .ok [(false, true), (true, true)] := by
    decide +kernel
  obtain ⟨masks, hmasks, hlog⟩ := map_eq_ok.mp hlog
  refine ⟨_, _, _, masks, hparse, hrun, List.mem_cons_self, List.mem_cons_self, hmasks, ?_⟩
  intro hrestored
  obtain ⟨e, he, hbits⟩ := List.mem_map.mp (hlog ▸ List.mem_cons_self : (false, true) ∈ _)
  rw [hrestored e he] at hbits
  obtain ⟨hfound, hleft⟩ := Prod.mk.inj hbits
  rw [hfound] at hleft
  cases hleft

end Rticx.CortexM.SourceMask
