import Rticx.CortexM.SourceMaskSharers

/-!
# Locks of idle by interrupt source masking

The proxies that are generated for idle have the priority of its attribute, or the default of a
task, for `TASK_PRIORITY`. Idle executes below every task, so its locks mask too little unless that
priority is below every task that shares the resource.
-/

namespace Rticx.CortexM.SourceMask

open Rticx.Core Lib.Except

/-- The registers in the closure of a lock. -/
def inLock {M : Nat} (priority ceiling : Nat) (masks : Vector (Mask M) 3) (regs : Regs) : Regs :=
  (lock priority ceiling masks (fun regs => (regs, regs)) regs).1

/-- A task bound to an interrupt of the NVIC that uses the resource itself or as a dispatcher. -/
def Sharer (P : Program) (resource : Ident) (u : RticTask) : Prop :=
  u ∈ nvicTasks P.sub ∧ ∃ v ∈ P.executes (some u), resource ∈ v.args.shared

section

variable {M : Nat} {masks : Vector (Mask M) 3} {number : Ident → Nat} {P : Program} {p c : Nat}
  {regs : Regs} {u : RticTask} {resource : Ident} {irq : Nat}

end

/-- **While idle is in the closure of a single lock, the sharers above its priority are kept out**, in
every run in which no other context enables what the lock has masked. -/
theorem idle_lock_keeps_sharers_out {args : AppArgs} {items : List Item} {app app' : App}
    {analysis : Analysis} (hparse : App.parse args items = .ok app)
    (hrun : Analysis.run app = .ok (app', analysis)) (P : Program) (hsub : P.sub ∈ app'.subApps)
    {idle : RticTask} (hidle : P.sub.idle = some idle) (number : Ident → Nat) :
    ∃ attr masks, .idle idle.name attr ∈ items ∧ sourceMaskGlobals number P.sub = .ok masks ∧
      ∀ nvic as s, (machine P number nvic masks).exec (.init number P.sub) as = some s →
        (machine P number nvic masks).Along (EnablesUnmasked masks) (.init number P.sub) as →
          ∀ f ∈ s.frames, f.running = some idle → ∀ l ∈ f.locks, l.single = true →
            l.inside = true → ∀ u, Sharer P l.resource u →
              attr.priority.getD defaultTaskPriority < u.args.priority →
              ∀ irq, u.args.binds = some irq → ¬ s.CanTake number nvic irq := by
  obtain ⟨attr, hattr, hprio⟩ := Analysis.run_idle hparse hrun hsub hidle
  obtain ⟨masks, hglobals, hmasks⟩ := sourceMaskGlobals_spec number P.sub
  refine ⟨attr, masks, hattr, hglobals, ?_⟩
  intro nvic as s hexec halong f hf hrunning l hl hsingle hinside u ⟨hu, hsharer⟩ hlt irq hirq
  obtain ⟨name, hname, hnone⟩ := binds_of_mem_nvicTasks hu
  cases hirq.symm.trans hname
  rw [← hprio] at hlt
  refine (inv_exec hexec halong).sharer_kept_out hmasks
    (fun _ _ he => Analysis.run_ceiling hparse hrun hsub he) hf hrunning hl hsingle hinside
    (List.mem_of_mem_filter hu) hirq hsharer hlt fun hexception => ?_
  rw [hnone] at hexception
  cases hexception

/-! ## A resource of idle and of a task of priority 1 -/

end Rticx.CortexM.SourceMask
