import Rticx.Core.Analysis

/-!
# Interrupt priorities

`distributions/rticx-cortex-m`: the translation of logical priorities in `export.rs`, and the part
of `post_init` and of `pre_codegen_validation` in the macro that concerns interrupts. The priority
of an interrupt is a byte of which the device implements the upper `NVIC_PRIO_BITS` bits; a
numerically smaller value is more urgent.
-/

namespace Rticx.CortexM

open Rticx.Core Lib.Except

/-! ## Priorities -/

/-- `n as u8` -/
def asU8 (n : Nat) : Nat := n % 2 ^ 8

/-- `cortex_logical2hw`, in bytes. -/
def cortexLogical2hw (logical nvicPrioBits : Nat) : Nat :=
  (2 ^ nvicPrioBits + 2 ^ 8 - logical) % 2 ^ 8 * 2 ^ (8 - nvicPrioBits) % 2 ^ 8

/-- A number of priority bits that leaves a byte for the level `1 << nvic_prio_bits`. -/
def PrioBits (b : Nat) : Prop := 1 ≤ b ∧ b ≤ 7

section

variable {b l m : Nat}

theorem PrioBits.pow_le (hb : PrioBits b) : 2 ^ b ≤ 128 :=
  Nat.pow_le_pow_right (by omega) hb.2

theorem PrioBits.pow_mul (hb : PrioBits b) : 2 ^ b * 2 ^ (8 - b) = 2 ^ 8 := by
  rw [← Nat.pow_add, Nat.add_sub_cancel' (Nat.le_succ_of_le hb.2)]

theorem asU8_of_le (hb : PrioBits b) (hl : l ≤ 2 ^ b) : asU8 l = l :=
  Nat.mod_eq_of_lt (by have := hb.pow_le; omega)

/-- The levels from 1 are spread evenly over the bytes, from the top down to 0. -/
theorem cortexLogical2hw_eq (hb : PrioBits b) (h₁ : 1 ≤ l) (hl : l ≤ 2 ^ b) :
    cortexLogical2hw l b = (2 ^ b - l) * 2 ^ (8 - b) := by
  have hpow := hb.pow_le
  have hsub : (2 ^ b + 2 ^ 8 - l) % 2 ^ 8 = 2 ^ b - l := by omega
  have hlt : (2 ^ b - l) * 2 ^ (8 - b) < 2 ^ 8 := by
    rw [← hb.pow_mul]
    exact Nat.mul_lt_mul_of_pos_right (by omega) (Nat.two_pow_pos _)
  rw [cortexLogical2hw, hsub, Nat.mod_eq_of_lt hlt]

theorem cortexLogical2hw_zero (hb : PrioBits b) : cortexLogical2hw 0 b = 0 := by
  have hpow := hb.pow_le
  have hsub : (2 ^ b + 2 ^ 8 - 0) % 2 ^ 8 = 2 ^ b := by
    rw [Nat.sub_zero, Nat.add_mod_right, Nat.mod_eq_of_lt (by omega)]
  rw [cortexLogical2hw, hsub, hb.pow_mul, Nat.mod_self]

/-- A higher level is more urgent. -/
theorem cortexLogical2hw_lt (hb : PrioBits b) (h₁ : 1 ≤ l) (hlm : l < m) (hm : m ≤ 2 ^ b) :
    cortexLogical2hw m b < cortexLogical2hw l b := by
  rw [cortexLogical2hw_eq hb (by omega) hm, cortexLogical2hw_eq hb h₁ (by omega)]
  exact Nat.mul_lt_mul_of_pos_right (by omega) (Nat.two_pow_pos _)

theorem cortexLogical2hw_le (hb : PrioBits b) (h₁ : 1 ≤ l) (hlm : l ≤ m) (hm : m ≤ 2 ^ b) :
    cortexLogical2hw m b ≤ cortexLogical2hw l b := by
  rcases Nat.eq_or_lt_of_le hlm with rfl | hlm
  · exact Nat.le_refl _
  · exact Nat.le_of_lt (cortexLogical2hw_lt hb h₁ hlm hm)

/-- Only the highest level has the value that BASEPRI takes for "no mask". -/
theorem cortexLogical2hw_pos (hb : PrioBits b) (h₁ : 1 ≤ l) (hl : l < 2 ^ b) :
    0 < cortexLogical2hw l b :=
  Nat.zero_lt_of_lt (cortexLogical2hw_lt hb h₁ hl (Nat.le_refl _))

/-- No value is less urgent than that of level 1. -/
theorem cortexLogical2hw_le_one (hb : PrioBits b) (l : Nat) :
    cortexLogical2hw l b ≤ cortexLogical2hw 1 b := by
  rw [cortexLogical2hw_eq hb (Nat.le_refl 1) Nat.one_le_two_pow, Nat.sub_mul, hb.pow_mul]
  -- both sides are multiples of `2 ^ (8 - b)`
  have hdvd : 2 ^ (8 - b) ∣ cortexLogical2hw l b := by
    unfold cortexLogical2hw
    exact (Nat.dvd_mod_iff ⟨2 ^ b, by rw [Nat.mul_comm, hb.pow_mul]⟩).mpr (Nat.dvd_mul_left ..)
  obtain ⟨k, hk⟩ := hdvd
  have hlt : 2 ^ (8 - b) * k < 2 ^ (8 - b) * 2 ^ b := by
    rw [← hk, Nat.mul_comm _ (2 ^ b), hb.pow_mul]
    exact Nat.mod_lt _ (Nat.two_pow_pos 8)
  have hk' : k + 1 ≤ 2 ^ b := Nat.lt_of_mul_lt_mul_left hlt
  have hle : 2 ^ (8 - b) * (k + 1) ≤ 2 ^ 8 := by
    rw [← hb.pow_mul, Nat.mul_comm (2 ^ b)]
    exact Nat.mul_le_mul_left _ hk'
  rw [hk, Nat.one_mul]
  rw [Nat.mul_succ] at hle
  omega

end

/-! ## Interrupts -/

/-- `CONFIGURABLE_EXCEPTIONS` -/
def configurableExceptions : List Ident :=
  ["MemoryManagement", "BusFault", "UsageFault", "SecureFault", "SVCall", "DebugMonitor", "PendSV",
    "SysTick"]

/-- `NON_CONFIGURABLE_EXCEPTIONS` -/
def nonConfigurableExceptions : List Ident := ["NonMaskableInt", "HardFault"]

/-- `is_exception` -/
def isException (name : Ident) : Bool := configurableExceptions.contains name

/-- `pre_codegen_validation` -/
def preCodegenValidation (app : App) : Except String Unit :=
  app.subApps.forM fun sub => sub.tasks.forM fun task =>
    match task.args.binds with
    | none => .ok ()
    | some name =>
      if name ∈ nonConfigurableExceptions then
        .error "only exceptions with configurable priority can be used as hardware tasks"
      else .ok ()

/-- The priority registers, those of the exceptions in the SCB, and the enable bits of the NVIC. -/
structure Nvic where
  priority : Ident → Nat
  enabled : Ident → Bool

namespace Nvic

def reset : Nvic := { priority := fun _ => 0, enabled := fun _ => false }

/-- `set_priority` -/
def setPriority (nvic : Nvic) (irq : Ident) (priority : Nat) : Nvic :=
  { nvic with priority := fun i => if i = irq then priority else nvic.priority i }

/-- `NVIC::unmask` -/
def unmask (nvic : Nvic) (irq : Ident) : Nvic :=
  { nvic with enabled := fun i => if i = irq then true else nvic.enabled i }

/-- An exception has no enable bit. -/
def isEnabled (nvic : Nvic) (irq : Ident) : Bool := isException irq || nvic.enabled irq

end Nvic

/-- The statements of `post_init` for one interrupt. The check is made at compile time. -/
def postInitIrq (nvicPrioBits : Nat) (nvic : Nvic) (irq : UsedIrq) : Except String Nvic :=
  if 2 ^ nvicPrioBits < irq.priority then
    .error (s!"Maximum priority used by interrupt vector '{irq.name}' is more than supported by " ++
      "hardware")
  else
    let programmed :=
      nvic.setPriority irq.name (cortexLogical2hw (asU8 irq.priority) nvicPrioBits)
    .ok (if isException irq.name then programmed else programmed.unmask irq.name)

/-- `post_init` -/
def postInit (nvicPrioBits : Nat) (usedIrqs : List UsedIrq) : Except String Nvic :=
  usedIrqs.foldlM (postInitIrq nvicPrioBits) Nvic.reset

section

variable {b : Nat} {nvic nvic' : Nvic} {irq : UsedIrq} {irqs : List UsedIrq}

theorem postInitIrq_priority (h : postInitIrq b nvic irq = .ok nvic') (i : Ident) :
    nvic'.priority i =
      if i = irq.name then cortexLogical2hw (asU8 irq.priority) b else nvic.priority i := by
  unfold postInitIrq at h
  split at h
  · cases h
  · cases h
    split
    · rfl
    · rfl

theorem postInit_priority_of_not_mem {i : Ident} (hi : ∀ irq ∈ irqs, irq.name ≠ i)
    (h : irqs.foldlM (postInitIrq b) nvic = .ok nvic') : nvic'.priority i = nvic.priority i := by
  induction irqs generalizing nvic with
  | nil =>
    cases h
    rfl
  | cons irq irqs ih =>
    rw [List.foldlM_cons, bind_eq_ok] at h
    obtain ⟨n, hn, h⟩ := h
    rw [ih (fun irq hirq => hi irq (List.mem_cons_of_mem _ hirq)) h, postInitIrq_priority hn,
      if_neg (fun hname => hi irq List.mem_cons_self hname.symm)]

/-- **Every interrupt in use gets its priority**, where no two have one name. -/
theorem postInit_priority (hnodup : (irqs.map (·.name)).Nodup)
    (h : irqs.foldlM (postInitIrq b) nvic = .ok nvic') :
    ∀ irq ∈ irqs, nvic'.priority irq.name = cortexLogical2hw (asU8 irq.priority) b := by
  induction irqs generalizing nvic with
  | nil =>
    intro irq hirq
    cases hirq
  | cons irq irqs ih =>
    rw [List.foldlM_cons, bind_eq_ok] at h
    obtain ⟨n, hn, h⟩ := h
    obtain ⟨hfresh, hnodup⟩ := List.nodup_cons.mp hnodup
    intro i hi
    rcases List.mem_cons.mp hi with rfl | hi
    · have hother : ∀ j ∈ irqs, j.name ≠ i.name :=
        fun j hj hname => hfresh (List.mem_map.mpr ⟨j, hj, hname⟩)
      rw [postInit_priority_of_not_mem hother h, postInitIrq_priority hn, if_pos rfl]
    · exact ih hnodup h i hi

/-- The check passes when every priority is supported. -/
theorem postInit_ok (hle : ∀ irq ∈ irqs, irq.priority ≤ 2 ^ b) :
    ∃ nvic', irqs.foldlM (postInitIrq b) nvic = .ok nvic' := by
  induction irqs generalizing nvic with
  | nil => exact ⟨nvic, rfl⟩
  | cons irq irqs ih =>
    have hirq : postInitIrq b nvic irq = .ok _ :=
      if_neg (Nat.not_lt.mpr (hle irq List.mem_cons_self))
    obtain ⟨nvic', h⟩ := ih fun i hi => hle i (List.mem_cons_of_mem _ hi)
    exact ⟨nvic', bind_eq_ok.mpr ⟨_, hirq, h⟩⟩

end

end Rticx.CortexM
