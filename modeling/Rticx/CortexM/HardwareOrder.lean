import Rticx.CortexM.PostInit
import Rticx.SwPass.Params

/-!
# The order of the interrupts

The priorities that `post_init` programs are ordered like the logical ones, except for the logical
priority 0: its byte is that of the highest level.
-/

namespace Rticx.CortexM

open Rticx.Core Lib.Except

/-- The check of `post_init` bounds every priority from above. -/
theorem postInit_le {b : Nat} {nvic nvic' : Nvic} {irqs : List UsedIrq}
    (h : irqs.foldlM (postInitIrq b) nvic = .ok nvic') : ∀ irq ∈ irqs, irq.priority ≤ 2 ^ b := by
  induction irqs generalizing nvic with
  | nil =>
    intro irq hirq
    cases hirq
  | cons irq irqs ih =>
    rw [List.foldlM_cons, bind_eq_ok] at h
    obtain ⟨n, hn, h⟩ := h
    intro i hi
    rcases List.mem_cons.mp hi with rfl | hi
    · unfold postInitIrq at hn
      split at hn
      · cases hn
      · exact Nat.le_of_not_lt ‹_›
    · exact ih h i hi

/-- A higher logical priority is a more urgent byte, and the byte `0`, which BASEPRI cannot mask,
is left to the highest level. -/
structure HardwareOrdered (b : Nat) (nvic : Nvic) (irqs : List UsedIrq) : Prop where
  lt : ∀ p ∈ irqs, ∀ q ∈ irqs, p.priority < q.priority →
    nvic.priority q.name < nvic.priority p.name
  maskable : ∀ p ∈ irqs, p.priority < 2 ^ b → nvic.priority p.name ≠ 0

/-- **The hardware priorities order like the logical ones exactly when no interrupt has the
logical priority 0.** Two handlers of one name do not compile. -/
theorem hardware_ordered_iff {b : Nat} (hb : PrioBits b) {sub : SubApp} {nvic : Nvic}
    (hnodup : (sub.tasks.filterMap (·.args.binds)).Nodup)
    (hboot : postInit b (SubAnalysis.run sub).usedIrqs = .ok nvic) :
    HardwareOrdered b nvic (SubAnalysis.run sub).usedIrqs ↔
      ∀ t ∈ sub.tasks, t.args.binds.isSome → t.args.priority ≠ 0 := by
  have hprio := postInit_priority (sub.usedIrqs_names.symm ▸ hnodup) hboot
  have hle := postInit_le hboot
  constructor
  · intro hordered t ht hbinds hzero
    obtain ⟨name, hname⟩ := Option.isSome_iff_exists.mp hbinds
    have hirq : (⟨name, t.args.priority⟩ : UsedIrq) ∈ (SubAnalysis.run sub).usedIrqs :=
      List.mem_filterMap.mpr ⟨t, ht, by rw [hname]; rfl⟩
    refine hordered.maskable _ hirq (hzero ▸ Nat.two_pow_pos b) ?_
    rw [hprio _ hirq, hzero]
    exact cortexLogical2hw_zero hb
  · intro hpos
    have hone : ∀ irq ∈ (SubAnalysis.run sub).usedIrqs, 1 ≤ irq.priority := by
      intro irq hirq
      obtain ⟨t, ht, hname⟩ := List.mem_filterMap.mp hirq
      obtain ⟨name, hbinds, rfl⟩ := Option.map_eq_some_iff.mp hname
      exact Nat.one_le_iff_ne_zero.mpr (hpos t ht (by rw [hbinds]; rfl))
    constructor
    · intro p hp q hq hlt
      rw [hprio p hp, hprio q hq, asU8_of_le hb (hle p hp), asU8_of_le hb (hle q hq)]
      exact cortexLogical2hw_lt hb (hone p hp) hlt (hle q hq)
    · intro p hp hlt
      rw [hprio p hp, asU8_of_le hb (hle p hp)]
      exact Nat.pos_iff_ne_zero.mp (cortexLogical2hw_pos hb (hone p hp) hlt)

/-! ## A dispatcher at priority 0 -/

/-- The dispatcher of a software task without arguments and a hardware task at priority 1. -/
def dispatcherItems : List Item := [
  .init "init" none,
  .task "Core0Priority0Dispatcher" (SwPass.dispatcherAttr "TIM6" 0 0).taskAttr,
  .task "Uart" { binds := some "USART1", priority := some 1 }]

/-- The only core of the app of these items. -/
def dispatcherSub : SubApp where
  core := 0
  shared := none
  init := ⟨0, "init"⟩
  postInit := none
  idle := none
  tasks := [
    ⟨⟨some "TIM6", 0, [], 0, hwtTraitTy, true⟩, "Core0Priority0Dispatcher"⟩,
    ⟨⟨some "USART1", 1, [], 0, hwtTraitTy, false⟩, "Uart"⟩]

/-- The app passes all checks, and the dispatcher of priority 0 gets the most urgent byte. -/
theorem dispatcher_outranks : ∃ app analysis nvic,
    App.parse ⟨["pac"], 1⟩ dispatcherItems = .ok app ∧
    Analysis.run app = .ok (app, analysis) ∧
    app.subApps = [dispatcherSub] ∧
    preCodegenValidation app = .ok () ∧
    (dispatcherSub.tasks.filterMap (·.args.binds)).Nodup ∧
    postInit 4 (SubAnalysis.run dispatcherSub).usedIrqs = .ok nvic ∧
    ¬ HardwareOrdered 4 nvic (SubAnalysis.run dispatcherSub).usedIrqs := by
  refine ⟨⟨⟨["pac"], 1⟩, [dispatcherSub]⟩, _, _, by decide +kernel, rfl, rfl, rfl, by decide, rfl, ?_⟩
  intro hordered
  have hlt := hordered.lt ⟨"TIM6", 0⟩ (by decide) ⟨"USART1", 1⟩ (by decide) Nat.one_pos
  revert hlt
  decide

/-- The same with the dispatcher at priority 2. -/
def orderedSub : SubApp :=
  { dispatcherSub with tasks := [
    ⟨⟨some "TIM6", 2, [], 0, hwtTraitTy, true⟩, "Core0Priority2Dispatcher"⟩,
    ⟨⟨some "USART1", 1, [], 0, hwtTraitTy, false⟩, "Uart"⟩] }

theorem dispatcher_ordered : ∃ nvic,
    postInit 4 (SubAnalysis.run orderedSub).usedIrqs = .ok nvic ∧
    HardwareOrdered 4 nvic (SubAnalysis.run orderedSub).usedIrqs :=
  ⟨_, rfl, (hardware_ordered_iff ⟨by decide, by decide⟩ (by decide) rfl).mpr (by decide)⟩

end Rticx.CortexM
