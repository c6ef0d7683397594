import Rticx.CortexM.SourceMask

/-!
# The source mask table

`generate_source_mask_globals` sizes the masks by the numbers of all interrupts of the app and fills
one mask for each of the levels 1 to 3. The numbers and priorities of the app are arbitrary. The
masks that a lock computes from the table are compared with the interrupts bound between its two
levels, bit for bit and in the words of the set-enable and clear-enable registers.
-/

namespace Rticx.CortexM.SourceMask

open Rticx.Core Lib.Except

/-- A task of the app is bound to the interrupt with this number, which is no exception, and its
priority is above `p` and at most `c`. -/
def BoundInterrupt (number : Ident → Nat) (sub : SubApp) (p c irq : Nat) : Prop :=
  ∃ t ∈ sub.tasks, ∃ name, t.args.binds = some name ∧ isException name = false ∧
    number name = irq ∧ p < t.args.priority ∧ t.args.priority ≤ c

section

variable {number : Ident → Nat} {sub : SubApp} {M p c irq n : Nat} {m m' : Mask M}

theorem boundBetween_iff :
    BoundBetween number sub p c irq ↔ BoundInterrupt number sub p c irq := by
  constructor
  · rintro ⟨t, ht, hp, hc, hnum⟩
    obtain ⟨name, hname, hexc⟩ := binds_of_mem_nvicTasks ht
    rw [hname, Option.map_some, Option.some_inj] at hnum
    exact ⟨t, List.mem_of_mem_filter ht, name, hname, hexc, hnum, hp, hc⟩
  · rintro ⟨t, ht, name, hname, hexc, hnum, hp, hc⟩
    refine ⟨t, List.mem_filter.mpr ⟨ht, ?_⟩, hp, hc, ?_⟩
    · simp [hname, hexc]
    · rw [hname, Option.map_some, hnum]

/-- Word and offset determine the interrupt. -/
theorem word_offset_inj {i j : Nat} (h : (i / 32, i % 32) = (j / 32, j % 32)) : i = j := by
  have hword := congrArg Prod.fst h
  have hoffset := congrArg Prod.snd h
  dsimp only at hword hoffset
  omega

theorem Mask.getLsbD_chunk (m : Mask M) (i : Nat) {o : Nat} (ho : o < 32) :
    (m.chunk i).getLsbD o = m.bit (32 * i + o) := by
  have hword : (32 * i + o) / 32 = i := by omega
  have hoffset : (32 * i + o) % 32 = o := by omega
  rw [Mask.bit, hword, hoffset]

theorem Mask.setBit_of_ne (h : m.setBit n = .ok m') (hne : irq ≠ n) : m'.bit irq = m.bit irq := by
  rw [Mask.setBit_bit h, decide_eq_false hne, Bool.or_false]

end

/-- What a table of masks has to be for the interrupts that an app binds. -/
structure ExactTable (number : Ident → Nat) (sub : SubApp)
    (masks : Vector (Mask (maskChunks number sub)) 3) : Prop where
  /-- Every mask is the one of its level. -/
  levels : ∀ k (hk : k < 3), levelMask number sub (k + 1) = .ok (masks[k])
  /-- The bits of a range of levels, in the word and at the offset of the interrupt, and no others. -/
  bits : ∀ p c, p < c → c ≤ 3 → ∀ i o, o < 32 →
    (((computeMask p c masks).chunk i).getLsbD o = true ↔
      BoundInterrupt number sub p c (32 * i + o))
  /-- Each of these interrupts has its word in the mask. -/
  words : ∀ p c irq, BoundInterrupt number sub p c irq → irq / 32 < maskChunks number sub
  /-- A write to the clear-enable registers disables these interrupts only. -/
  disabled : ∀ p c, p < c → c ≤ 3 → ∀ regs irq,
    ((clearEnableMask (computeMask p c masks) regs).enabled irq = true ↔
      regs.enabled irq = true ∧ ¬BoundInterrupt number sub p c irq)
  /-- A write to the set-enable registers enables these interrupts only. -/
  enabled : ∀ p c, p < c → c ≤ 3 → ∀ regs irq,
    ((setEnableMask (computeMask p c masks) regs).enabled irq = true ↔
      regs.enabled irq = true ∨ BoundInterrupt number sub p c irq)

/-- No two interrupts share a bit of a mask. -/
def NoAlias (M : Nat) : Prop :=
  ∀ (m m' : Mask M) (n irq : Nat), m.setBit n = .ok m' → irq ≠ n →
    (irq / 32, irq % 32) ≠ (n / 32, n % 32) ∧ m'.bit irq = m.bit irq

theorem noAlias (M : Nat) : NoAlias M :=
  fun _ _ _ _ h hne => ⟨fun hbit => hne (word_offset_inj hbit), Mask.setBit_of_ne h hne⟩

section

variable {number : Ident → Nat} {sub : SubApp} {p c irq : Nat}
  {masks : Vector (Mask (maskChunks number sub)) 3}

theorem BoundInterrupt.lt_maskChunks (h : BoundInterrupt number sub p c irq) :
    irq / 32 < maskChunks number sub := by
  obtain ⟨t, ht, -, -, hnum⟩ := boundBetween_iff.mpr h
  exact lt_computeMaskChunks (mem_irqNumbers.mpr ⟨t, ht, hnum⟩)

theorem sourceMaskGlobals_levels (h : sourceMaskGlobals number sub = .ok masks) (k : Nat)
    (hk : k < 3) : levelMask number sub (k + 1) = .ok (masks[k]) := by
  rw [sourceMaskGlobals, bind_eq_ok] at h
  obtain ⟨m₁, h₁, h⟩ := h
  rw [bind_eq_ok] at h
  obtain ⟨m₂, h₂, h⟩ := h
  rw [bind_eq_ok] at h
  obtain ⟨m₃, h₃, h⟩ := h
  cases h
  have hlevel : k = 0 ∨ k = 1 ∨ k = 2 := by omega
  rcases hlevel with rfl | rfl | rfl
  · exact h₁
  · exact h₂
  · exact h₃

theorem computeMask_bit_iff (h : TableOf number sub masks) (hc : c ≤ 3) :
    (computeMask p c masks).bit irq = true ↔ BoundInterrupt number sub p c irq :=
  (h p c irq hc).trans boundBetween_iff

theorem TableOf.exact (hmasks : sourceMaskGlobals number sub = .ok masks)
    (h : TableOf number sub masks) : ExactTable number sub masks where
  levels := sourceMaskGlobals_levels hmasks
  bits := by
    intro p c _ hc i o ho
    rw [Mask.getLsbD_chunk _ i ho]
    exact computeMask_bit_iff h hc
  words := fun _ _ _ hbound => hbound.lt_maskChunks
  disabled := by
    intro p c _ hc regs irq
    rw [clearEnableMask_enabled, Bool.and_eq_true, Bool.not_eq_true', ← Bool.not_eq_true,
      computeMask_bit_iff h hc]
  enabled := by
    intro p c _ hc regs irq
    rw [setEnableMask_enabled, Bool.or_eq_true, computeMask_bit_iff h hc]

end

/-- **The table is computed, complete and exact**, whatever interrupts the app binds. -/
theorem sourceMaskGlobals_exact (number : Ident → Nat) (sub : SubApp) :
    NoAlias (maskChunks number sub) ∧
      ∃ masks, sourceMaskGlobals number sub = .ok masks ∧ ExactTable number sub masks := by
  obtain ⟨masks, hmasks, htable⟩ := sourceMaskGlobals_spec number sub
  exact ⟨noAlias _, masks, hmasks, htable.exact hmasks⟩

end Rticx.CortexM.SourceMask
