import Mathlib.Data.Vector.Basic
import Rticx.CortexM.Program

/-!
# Locks by interrupt source masking

The module `source_mask` of `distributions/rticx-cortex-m/src/export.rs`, for devices without
BASEPRI, and the mask table that `generate_source_mask_globals` of the macro computes for it. The
table has one mask for each of the levels 1 to 3, of the interrupts bound at that level; a lock
disables those between the priority of its task and the ceiling of its resource in the NVIC.

The numbers of the interrupts come from the PAC and are a parameter.
-/

namespace Rticx.CortexM.SourceMask

open Rticx.Core Lib.Except

/-! ## Masks -/

/-- `Mask`, an array of words -/
abbrev Mask (M : Nat) := Vector (BitVec 32) M

variable {M : Nat}

namespace Mask

def zero : Mask M := Vector.replicate M 0

/-- A word of the mask, `0` past its end. -/
def chunk (m : Mask M) (i : Nat) : BitVec 32 := m[i]?.getD 0

/-- The bit of an interrupt. -/
def bit (m : Mask M) (irq : Nat) : Bool := (m.chunk (irq / 32)).getLsbD (irq % 32)

/-- `bitor_assign` -/
def bitorAssign (m rhs : Mask M) : Mask M := Vector.zipWith (· ||| ·) m rhs

/-- `set_bit` -/
def setBit (m : Mask M) (bit : Nat) : Except String (Mask M) :=
  let block := bit / 32
  if h : block < M then
    let offset := bit - block * 32
    .ok (m.set block (m[block] ||| 1#32 <<< offset) h)
  else
    .error ("Generating masks for thumbv6/thumbv8m.base failed! Are you compiling for thumbv6 " ++
      "on an thumbv7 MCU or using an unsupported thumbv8m.base MCU?")

end Mask

/-- `create_mask` -/
def createMask (M : Nat) (listOfShifts : List Nat) : Except String (Mask M) :=
  listOfShifts.foldlM Mask.setBit .zero

/-- `compute_mask_chunks` -/
def computeMaskChunks (ids : List Nat) : Nat :=
  (ids.foldl (fun max id => if max < id then id else max) 0 + 32) / 32

/-- `compute_mask` -/
def computeMask (fromPrio toPrio : Nat) (masks : Vector (Mask M) 3) : Mask M :=
  ((masks.toList.take toPrio).drop fromPrio).foldl Mask.bitorAssign .zero

/-! ## Registers -/

/-- The interrupt set-enable registers, and PRIMASK. -/
structure Regs where
  iser : Nat → BitVec 32
  primask : Bool

namespace Regs

/-- A write to a set-enable register. -/
def writeIser (regs : Regs) (i : Nat) (word : BitVec 32) : Regs :=
  { regs with iser := Function.update regs.iser i (regs.iser i ||| word) }

/-- A write to a clear-enable register. -/
def writeIcer (regs : Regs) (i : Nat) (word : BitVec 32) : Regs :=
  { regs with iser := Function.update regs.iser i (regs.iser i &&& ~~~word) }

/-- The enable bit of an interrupt. -/
def enabled (regs : Regs) (irq : Nat) : Bool := (regs.iser (irq / 32)).getLsbD (irq % 32)

end Regs

/-- One round of `set_enable_mask`. -/
def setEnableChunk (mask : Mask M) (i : Nat) (regs : Regs) : Regs :=
  if mask.chunk i ≠ 0 then regs.writeIser i (mask.chunk i) else regs

/-- One round of `clear_enable_mask`. -/
def clearEnableChunk (mask : Mask M) (i : Nat) (regs : Regs) : Regs :=
  if mask.chunk i ≠ 0 then regs.writeIcer i (mask.chunk i) else regs

/-- `set_enable_mask` -/
def setEnableMask (mask : Mask M) (regs : Regs) : Regs :=
  (List.range M).foldl (fun regs i => setEnableChunk mask i regs) regs

/-- `clear_enable_mask` -/
def clearEnableMask (mask : Mask M) (regs : Regs) : Regs :=
  (List.range M).foldl (fun regs i => clearEnableChunk mask i regs) regs

/-! ## Locks -/

/-- `interrupt::free` -/
def interruptFree {α : Type} (f : Regs → α × Regs) (regs : Regs) : α × Regs :=
  let r := f { regs with primask := true }
  (r.1, if regs.primask then r.2 else { r.2 with primask := false })

/-- `lock` -/
def lock {α : Type} (priority ceiling : Nat) (masks : Vector (Mask M) 3) (f : Regs → α × Regs)
    (regs : Regs) : α × Regs :=
  let current := priority
  if current < ceiling then
    if 4 ≤ ceiling then interruptFree f regs
    else
      let mask := computeMask (asU8 current) (asU8 ceiling) masks
      let r := f (clearEnableMask mask regs)
      (r.1, setEnableMask mask r.2)
  else f regs

/-! ## The mask table -/

section

variable (number : Ident → Nat) (sub : SubApp)

/-- The tasks bound to an interrupt of the NVIC. -/
def nvicTasks : List RticTask :=
  sub.tasks.filter fun t => t.args.binds.any fun name => !isException name

def irqNumbers (tasks : List RticTask) : List Nat :=
  tasks.filterMap fun t => t.args.binds.map number

def maskChunks : Nat := computeMaskChunks (irqNumbers number (nvicTasks sub))

def levelMask (level : Nat) : Except String (Mask (maskChunks number sub)) :=
  createMask _ (irqNumbers number ((nvicTasks sub).filter (·.args.priority = level)))

/-- `generate_source_mask_globals` -/
def sourceMaskGlobals : Except String (Vector (Mask (maskChunks number sub)) 3) := do
  return #v[← levelMask number sub 1, ← levelMask number sub 2, ← levelMask number sub 3]

end

/-! ## Bits -/

section

variable {m rhs : Mask M} {irq i n : Nat} {regs : Regs}

theorem Mask.chunk_of_le (h : M ≤ i) : m.chunk i = 0 := by
  unfold Mask.chunk
  rw [Vector.getElem?_eq_none h, Option.getD_none]

theorem Mask.chunk_zero : (Mask.zero : Mask M).chunk i = 0 := by
  unfold Mask.chunk Mask.zero
  by_cases hi : i < M
  · simp [hi]
  · simp [hi]

theorem Mask.chunk_bitorAssign : (m.bitorAssign rhs).chunk i = m.chunk i ||| rhs.chunk i := by
  by_cases hi : i < M
  · simp [Mask.chunk, Mask.bitorAssign, hi]
  · have hi := Nat.le_of_not_lt hi
    rw [chunk_of_le hi, chunk_of_le hi, chunk_of_le hi]
    rfl

theorem Mask.bit_zero : (Mask.zero : Mask M).bit irq = false := by
  rw [Mask.bit, chunk_zero]
  exact BitVec.getLsbD_zero

theorem Mask.bit_bitorAssign : (m.bitorAssign rhs).bit irq = (m.bit irq || rhs.bit irq) := by
  rw [Mask.bit, chunk_bitorAssign, BitVec.getLsbD_or]
  rfl

theorem Mask.setBit_bit {m' : Mask M} (h : m.setBit n = .ok m') :
    m'.bit irq = (m.bit irq || decide (irq = n)) := by
  unfold Mask.setBit at h
  dsimp only at h
  split at h
  · rename_i hn
    cases h
    have hoffset : n - n / 32 * 32 = n % 32 := by omega
    by_cases hblock : irq / 32 = n / 32
    · -- the same word
      have hirq : irq = n ↔ irq % 32 = n % 32 := by omega
      simp only [Mask.bit, Mask.chunk, hblock, Vector.getElem?_set_self, Option.getD_some, hoffset,
        BitVec.getLsbD_or, ← BitVec.twoPow_eq, BitVec.getLsbD_twoPow]
      rw [Vector.getElem?_eq_getElem hn, Option.getD_some]
      congr 1
      simp [hirq, Nat.mod_lt, eq_comm]
    · -- another word
      have hirq : irq ≠ n := by
        intro hirq
        exact hblock (by rw [hirq])
      simp [Mask.bit, Mask.chunk, Vector.getElem?_set_ne _ (Ne.symm hblock), hirq]
  · cases h

theorem createMask_bit {shifts : List Nat} {m' : Mask M}
    (h : shifts.foldlM Mask.setBit m = .ok m') :
    m'.bit irq = (m.bit irq || decide (irq ∈ shifts)) := by
  induction shifts generalizing m with
  | nil =>
    cases h
    simp
  | cons n shifts ih =>
    rw [List.foldlM_cons, bind_eq_ok] at h
    obtain ⟨m₁, hm₁, h⟩ := h
    rw [ih h, Mask.setBit_bit hm₁]
    simp [Bool.or_assoc]

theorem createMask_ok {shifts : List Nat} (h : ∀ n ∈ shifts, n / 32 < M) :
    ∃ m', shifts.foldlM Mask.setBit m = .ok m' := by
  induction shifts generalizing m with
  | nil => exact ⟨m, rfl⟩
  | cons n shifts ih =>
    have hn : m.setBit n = .ok _ := dif_pos (h n List.mem_cons_self)
    obtain ⟨m', hm'⟩ := ih fun k hk => h k (List.mem_cons_of_mem n hk)
    exact ⟨m', bind_eq_ok.mpr ⟨_, hn, hm'⟩⟩

/-- There is a word for every interrupt in use. -/
theorem lt_computeMaskChunks {ids : List Nat} (h : n ∈ ids) : n / 32 < computeMaskChunks ids := by
  have hle : ∀ (ids : List Nat) (m : Nat),
      m ≤ ids.foldl (fun max id => if max < id then id else max) m ∧
        ∀ n ∈ ids, n ≤ ids.foldl (fun max id => if max < id then id else max) m := by
    intro ids
    induction ids with
    | nil => simp
    | cons k ids ih =>
      intro m
      obtain ⟨hm, hids⟩ := ih (if m < k then k else m)
      have hk : m ≤ (if m < k then k else m) ∧ k ≤ (if m < k then k else m) := by
        split <;> omega
      refine ⟨Nat.le_trans hk.1 hm, ?_⟩
      intro n hn
      rcases List.mem_cons.mp hn with rfl | hn
      · exact Nat.le_trans hk.2 hm
      · exact hids n hn
  have := (hle ids 0).2 n h
  unfold computeMaskChunks
  omega

theorem foldl_bitorAssign_bit {ms : List (Mask M)} :
    (ms.foldl Mask.bitorAssign m).bit irq = (m.bit irq || ms.any (·.bit irq)) := by
  induction ms generalizing m with
  | nil => simp
  | cons a ms ih =>
    rw [List.foldl_cons, ih, Mask.bit_bitorAssign, List.any_cons, Bool.or_assoc]

theorem setEnableChunk_iser {mask : Mask M} (j : Nat) :
    (setEnableChunk mask i regs).iser j =
      if j = i then regs.iser j ||| mask.chunk j else regs.iser j := by
  unfold setEnableChunk Regs.writeIser
  split
  · by_cases hj : j = i
    · simp [hj]
    · simp [hj]
  · rename_i h0
    by_cases hj : j = i
    · simp [hj, not_not.mp h0]
    · simp [hj]

theorem clearEnableChunk_iser {mask : Mask M} (j : Nat) :
    (clearEnableChunk mask i regs).iser j =
      if j = i then regs.iser j &&& ~~~mask.chunk j else regs.iser j := by
  unfold clearEnableChunk Regs.writeIcer
  split
  · by_cases hj : j = i
    · simp [hj]
    · simp [hj]
  · rename_i h0
    by_cases hj : j = i
    · have hkeep : regs.iser i &&& ~~~0#32 = regs.iser i := by
        rw [BitVec.not_zero, BitVec.and_allOnes]
      rw [if_pos hj, hj, not_not.mp h0]
      exact hkeep.symm
    · simp [hj]

theorem setEnableChunk_primask {mask : Mask M} :
    (setEnableChunk mask i regs).primask = regs.primask := by
  unfold setEnableChunk Regs.writeIser
  split <;> rfl

theorem clearEnableChunk_primask {mask : Mask M} :
    (clearEnableChunk mask i regs).primask = regs.primask := by
  unfold clearEnableChunk Regs.writeIcer
  split <;> rfl

/-! ## Whole masks -/

theorem setEnableMask_iser {mask : Mask M} (j : Nat) :
    (setEnableMask mask regs).iser j = regs.iser j ||| mask.chunk j := by
  have hrounds : ∀ k, ((List.range k).foldl (fun regs i => setEnableChunk mask i regs) regs).iser j =
      if j < k then regs.iser j ||| mask.chunk j else regs.iser j := by
    intro k
    induction k with
    | zero => simp
    | succ k ih =>
      rw [List.range_succ, List.foldl_append, List.foldl_cons, List.foldl_nil,
        setEnableChunk_iser, ih]
      by_cases hj : j = k
      · simp [hj]
      · have hlt : j < k + 1 ↔ j < k := by omega
        simp [hj, hlt]
  rw [setEnableMask, hrounds]
  split
  · rfl
  · rename_i hj
    rw [Mask.chunk_of_le (Nat.le_of_not_lt hj)]
    exact BitVec.or_zero.symm

theorem clearEnableMask_iser {mask : Mask M} (j : Nat) :
    (clearEnableMask mask regs).iser j = regs.iser j &&& ~~~mask.chunk j := by
  have hrounds : ∀ k, ((List.range k).foldl (fun regs i => clearEnableChunk mask i regs) regs).iser
      j = if j < k then regs.iser j &&& ~~~mask.chunk j else regs.iser j := by
    intro k
    induction k with
    | zero => simp
    | succ k ih =>
      rw [List.range_succ, List.foldl_append, List.foldl_cons, List.foldl_nil,
        clearEnableChunk_iser, ih]
      by_cases hj : j = k
      · simp [hj]
      · have hlt : j < k + 1 ↔ j < k := by omega
        simp [hj, hlt]
  rw [clearEnableMask, hrounds]
  split
  · rfl
  · rename_i hj
    have hkeep : regs.iser j &&& ~~~0#32 = regs.iser j := by
      rw [BitVec.not_zero, BitVec.and_allOnes]
    rw [Mask.chunk_of_le (Nat.le_of_not_lt hj)]
    exact hkeep.symm

theorem setEnableMask_primask {mask : Mask M} :
    (setEnableMask mask regs).primask = regs.primask := by
  unfold setEnableMask
  induction List.range M generalizing regs with
  | nil => rfl
  | cons i is ih => rw [List.foldl_cons, ih, setEnableChunk_primask]

theorem clearEnableMask_primask {mask : Mask M} :
    (clearEnableMask mask regs).primask = regs.primask := by
  unfold clearEnableMask
  induction List.range M generalizing regs with
  | nil => rfl
  | cons i is ih => rw [List.foldl_cons, ih, clearEnableChunk_primask]

theorem setEnableMask_enabled {mask : Mask M} :
    (setEnableMask mask regs).enabled irq = (regs.enabled irq || mask.bit irq) := by
  rw [Regs.enabled, setEnableMask_iser, BitVec.getLsbD_or]
  rfl

theorem clearEnableMask_enabled {mask : Mask M} :
    (clearEnableMask mask regs).enabled irq = (regs.enabled irq && !mask.bit irq) := by
  rw [Regs.enabled, clearEnableMask_iser, BitVec.getLsbD_and, BitVec.getLsbD_not,
    decide_eq_true (Nat.mod_lt irq (by decide)), Bool.true_and]
  rfl

/-- The enable bits are the state of the registers. -/
theorem Regs.ext_enabled {r r' : Regs} (h : ∀ irq, r.enabled irq = r'.enabled irq)
    (hprimask : r.primask = r'.primask) : r = r' := by
  obtain ⟨iser, primask⟩ := r
  obtain ⟨iser', primask'⟩ := r'
  have hiser : iser = iser' := by
    funext i
    refine BitVec.eq_of_getLsbD_eq fun j hj => ?_
    have hbit := h (32 * i + j)
    have hdiv : (32 * i + j) / 32 = i := by omega
    have hmod : (32 * i + j) % 32 = j := by omega
    rw [enabled, enabled, hdiv, hmod] at hbit
    exact hbit
  cases hiser
  cases hprimask
  rfl

end

/-! ## The table of an app -/

section

variable {number : Ident → Nat} {sub : SubApp}

/-- An interrupt that the app binds at one of the levels above `p` and up to `c`. -/
def BoundBetween (number : Ident → Nat) (sub : SubApp) (p c irq : Nat) : Prop :=
  ∃ t ∈ nvicTasks sub, p < t.args.priority ∧ t.args.priority ≤ c ∧
    t.args.binds.map number = some irq

/-- The mask of a range of levels has the interrupts bound in it. -/
def TableOf (number : Ident → Nat) (sub : SubApp) (masks : Vector (Mask M) 3) : Prop :=
  ∀ p c irq, c ≤ 3 → ((computeMask p c masks).bit irq = true ↔ BoundBetween number sub p c irq)

theorem binds_of_mem_nvicTasks {t : RticTask} (h : t ∈ nvicTasks sub) :
    ∃ name, t.args.binds = some name ∧ isException name = false := by
  have hany := (List.mem_filter.mp h).2
  cases hname : t.args.binds with
  | none =>
    rw [hname] at hany
    cases hany
  | some name =>
    rw [hname] at hany
    exact ⟨name, rfl, by simpa using hany⟩

theorem mem_irqNumbers {tasks : List RticTask} {irq : Nat} :
    irq ∈ irqNumbers number tasks ↔ ∃ t ∈ tasks, t.args.binds.map number = some irq :=
  List.mem_filterMap

theorem levelMask_spec (number : Ident → Nat) (sub : SubApp) (level : Nat) :
    ∃ m, levelMask number sub level = .ok m ∧ ∀ irq, m.bit irq = true ↔
      ∃ t ∈ nvicTasks sub, t.args.priority = level ∧ t.args.binds.map number = some irq := by
  have hwords : ∀ n ∈ irqNumbers number ((nvicTasks sub).filter (·.args.priority = level)),
      n / 32 < maskChunks number sub := by
    intro n hn
    obtain ⟨t, ht, hnum⟩ := mem_irqNumbers.mp hn
    exact lt_computeMaskChunks (mem_irqNumbers.mpr ⟨t, List.mem_of_mem_filter ht, hnum⟩)
  obtain ⟨m, hm⟩ := createMask_ok (m := .zero) hwords
  refine ⟨m, hm, ?_⟩
  intro irq
  rw [createMask_bit hm, Mask.bit_zero, Bool.false_or, decide_eq_true_iff, mem_irqNumbers]
  simp [and_assoc]

/-- The levels above `p` and up to `k` of three. -/
theorem mem_levels {α : Type} {a b c m : α} {p k : Nat} (hk : k ≤ 3) :
    m ∈ (#v[a, b, c].toList.take k).drop p ↔
      (p < 1 ∧ 1 ≤ k ∧ m = a) ∨ (p < 2 ∧ 2 ≤ k ∧ m = b) ∨ (p < 3 ∧ 3 ≤ k ∧ m = c) := by
  have hk' : k = 0 ∨ k = 1 ∨ k = 2 ∨ k = 3 := by omega
  rcases hk' with rfl | rfl | rfl | rfl
  all_goals rcases p with _ | _ | _ | p
  all_goals simp

/-- **The table is computed**, and the mask of a range of levels has the interrupts bound in it. -/
theorem sourceMaskGlobals_spec (number : Ident → Nat) (sub : SubApp) :
    ∃ masks, sourceMaskGlobals number sub = .ok masks ∧ TableOf number sub masks := by
  obtain ⟨m₁, h₁, hm₁⟩ := levelMask_spec number sub 1
  obtain ⟨m₂, h₂, hm₂⟩ := levelMask_spec number sub 2
  obtain ⟨m₃, h₃, hm₃⟩ := levelMask_spec number sub 3
  refine ⟨#v[m₁, m₂, m₃], ?_, ?_⟩
  · rw [sourceMaskGlobals, h₁, h₂, h₃]
    rfl
  intro p c irq hc
  rw [computeMask, foldl_bitorAssign_bit, Mask.bit_zero, Bool.false_or, List.any_eq_true]
  have hmem := fun m => mem_levels (a := m₁) (b := m₂) (c := m₃) (m := m) (p := p) (k := c) hc
  constructor
  · rintro ⟨m, hm, hbit⟩
    rcases (hmem m).mp hm with ⟨hp, hc, rfl⟩ | ⟨hp, hc, rfl⟩ | ⟨hp, hc, rfl⟩
    · obtain ⟨t, ht, hprio, hnum⟩ := (hm₁ irq).mp hbit
      exact ⟨t, ht, by omega, by omega, hnum⟩
    · obtain ⟨t, ht, hprio, hnum⟩ := (hm₂ irq).mp hbit
      exact ⟨t, ht, by omega, by omega, hnum⟩
    · obtain ⟨t, ht, hprio, hnum⟩ := (hm₃ irq).mp hbit
      exact ⟨t, ht, by omega, by omega, hnum⟩
  · rintro ⟨t, ht, hp, hle, hnum⟩
    have hlevel : t.args.priority = 1 ∨ t.args.priority = 2 ∨ t.args.priority = 3 := by omega
    rcases hlevel with hprio | hprio | hprio
    · exact ⟨m₁, (hmem _).mpr (Or.inl ⟨by omega, by omega, rfl⟩), (hm₁ irq).mpr ⟨t, ht, hprio, hnum⟩⟩
    · exact ⟨m₂, (hmem _).mpr (Or.inr (Or.inl ⟨by omega, by omega, rfl⟩)),
        (hm₂ irq).mpr ⟨t, ht, hprio, hnum⟩⟩
    · exact ⟨m₃, (hmem _).mpr (Or.inr (Or.inr ⟨by omega, by omega, rfl⟩)),
        (hm₃ irq).mpr ⟨t, ht, hprio, hnum⟩⟩

end

end Rticx.CortexM.SourceMask
