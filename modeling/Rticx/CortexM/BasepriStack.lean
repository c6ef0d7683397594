import Rticx.CortexM.BasepriSrp

/-!
# The stack of contexts on the BASEPRI path

The contexts of a core are a stack whose priorities go up from idle to the top, so there are at most
as many handlers as priorities in use.

A pending interrupt that outranks the context that runs is then kept out by nothing but a lock of
this context, on a resource whose ceiling reaches the interrupt: a handler waits for one critical
section of one context at most. No context waits for another one, so from every state the stack can
be wound up to idle.
-/

namespace Rticx.CortexM

open Rticx.Core Lib Lib.Except

/-! ## Interrupts in use are enabled -/

section

variable {b : Nat} {nvic nvic' : Nvic} {irq : UsedIrq} {irqs : List UsedIrq}

theorem postInitIrq_enabled (h : postInitIrq b nvic irq = .ok nvic') {i : Ident}
    (hi : i = irq.name ∨ nvic.isEnabled i = true) : nvic'.isEnabled i = true := by
  unfold Nvic.isEnabled at hi ⊢
  cases hexception : isException i with
  | true => rw [Bool.true_or]
  | false =>
    rw [hexception, Bool.false_or] at hi
    rw [Bool.false_or]
    unfold postInitIrq at h
    split at h
    · cases h
    · cases h
      split
      · rename_i hirq
        refine hi.resolve_left ?_
        rintro rfl
        exact Bool.false_ne_true (hexception.symm.trans hirq)
      · show (if i = irq.name then true else nvic.enabled i) = true
        split
        · rfl
        · rename_i hne
          exact hi.resolve_left hne

theorem postInit_enabled (h : irqs.foldlM (postInitIrq b) nvic = .ok nvic') {i : Ident}
    (hi : (∃ irq ∈ irqs, i = irq.name) ∨ nvic.isEnabled i = true) : nvic'.isEnabled i = true := by
  induction irqs generalizing nvic with
  | nil =>
    cases h
    refine hi.resolve_left ?_
    rintro ⟨irq, hirq, -⟩
    cases hirq
  | cons irq irqs ih =>
    rw [List.foldlM_cons, bind_eq_ok] at h
    obtain ⟨n, hn, h⟩ := h
    rcases hi with ⟨j, hj, hname⟩ | hi
    · rcases List.mem_cons.mp hj with rfl | hj
      · exact ih h (Or.inr (postInitIrq_enabled hn (Or.inl hname)))
      · exact ih h (Or.inl ⟨j, hj, hname⟩)
    · exact ih h (Or.inr (postInitIrq_enabled hn (Or.inr hi)))

end

namespace Program

variable {P : Program} {b : Nat} {nvic : Nvic} {irq : Ident} {t : RticTask}

/-- The interrupt of a handler can be taken. -/
theorem boot_enabled (hboot : P.boot b = .ok nvic) (ht : P.handler irq = some t) :
    nvic.isEnabled irq = true := by
  obtain ⟨hmem, hbinds⟩ := handler_eq_some ht
  refine postInit_enabled hboot (Or.inl ⟨⟨irq, t.args.priority⟩, ?_, rfl⟩)
  exact List.mem_filterMap.mpr ⟨t, hmem, by rw [hbinds]; rfl⟩

/-- The interrupt of a task has the hardware priority of the task. -/
theorem boot_priority_of_binds (hboot : P.boot b = .ok nvic) (ht : t ∈ P.sub.tasks)
    (hbinds : t.args.binds = some irq) :
    nvic.priority irq = cortexLogical2hw (asU8 t.args.priority) b := by
  have hirq : (⟨irq, t.args.priority⟩ : UsedIrq) ∈ (SubAnalysis.run P.sub).usedIrqs :=
    List.mem_filterMap.mpr ⟨t, ht, by rw [hbinds]; rfl⟩
  exact postInit_priority (P.sub.usedIrqs_names.symm ▸ P.binds_nodup) hboot _ hirq

end Program

namespace Basepri

/-! ## What masks an interrupt -/

section

variable {b hw : Nat} {l : Lock} {base regs : Regs} {locks : List Lock} {frames : List Frame}

/-- The lock keeps out the interrupts from `hw` on. -/
def Lock.Blocks (b hw : Nat) (l : Lock) : Prop :=
  l.inside = true ∧
    (l.ceiling = 2 ^ b ∨
      cortexLogical2hw l.ceiling b ≠ 0 ∧ cortexLogical2hw l.ceiling b ≤ hw)

theorem Regs.masks_writeBasepriMax {value : Nat} (h : (regs.writeBasepriMax value).Masks hw) :
    regs.Masks hw ∨ (value ≠ 0 ∧ value ≤ hw) := by
  unfold Regs.writeBasepriMax at h
  split at h
  · rename_i hraise
    rcases h with h | ⟨-, h⟩
    · exact Or.inl (Or.inl h)
    · exact Or.inr ⟨hraise.1, h⟩
  · exact Or.inl h

/-- What is masked under a lock, the lock masks or it has found masked. -/
theorem Lock.Leaves.blocks (h : l.Leaves b regs) (hmasks : regs.Masks hw) :
    l.found.Masks hw ∨ l.Blocks b hw := by
  unfold Lock.Leaves at h
  unfold Lock.Blocks Lock.inside
  split at h
  · exact Or.inl (h ▸ hmasks)
  · exact Or.inl (h.1 ▸ hmasks)
  · rename_i hst
    rw [h.1] at hmasks
    rw [hst]
    rcases Regs.masks_writeBasepriMax hmasks with hmasks | hmasks
    · exact Or.inl hmasks
    · exact Or.inr ⟨rfl, Or.inr hmasks⟩
  · exact Or.inl (h.1 ▸ hmasks)
  · rename_i hst
    rw [hst]
    exact Or.inr ⟨rfl, Or.inl h.2.2⟩

theorem LockChain.blocks (h : LockChain b base locks regs) (hmasks : regs.Masks hw) :
    base.Masks hw ∨ ∃ l ∈ locks, l.Blocks b hw := by
  induction locks generalizing regs with
  | nil => exact Or.inl (h ▸ hmasks)
  | cons l locks ih =>
    rcases h.2.blocks hmasks with hmasks | hl
    · rcases ih h.1 hmasks with hbase | ⟨k, hk, hblocks⟩
      · exact Or.inl hbase
      · exact Or.inr ⟨k, List.mem_cons_of_mem l hk, hblocks⟩
    · exact Or.inr ⟨l, List.mem_cons_self, hl⟩

/-- **Only locks mask.** -/
theorem Chain.blocks (h : Chain b frames regs) (hmasks : regs.Masks hw) :
    ∃ f ∈ frames, ∃ l ∈ f.locks, l.Blocks b hw := by
  induction frames generalizing regs with
  | nil =>
    rw [show regs = .reset from h] at hmasks
    rcases hmasks with hmasks | ⟨hmasks, -⟩
    · cases hmasks
    · exact absurd rfl hmasks
  | cons f frames ih =>
    rcases h.1.blocks hmasks with hmasks | ⟨l, hl, hblocks⟩
    · obtain ⟨g, hg, l, hl, hblocks⟩ := ih h.2 hmasks
      exact ⟨g, List.mem_cons_of_mem f hg, l, hl, hblocks⟩
    · exact ⟨f, List.mem_cons_self, l, hl, hblocks⟩

/-- A lock that blocks a supported priority has a ceiling that reaches it. -/
theorem Lock.Blocks.le_ceiling {p : Nat} (hb : PrioBits b) (hp : p ≤ 2 ^ b)
    (h : l.Blocks b (cortexLogical2hw p b)) : p ≤ l.ceiling := by
  rcases h.2 with hfull | ⟨hne, hle⟩
  · exact hfull ▸ hp
  · by_contra hlt
    have hpos : 1 ≤ l.ceiling := by
      refine Nat.pos_of_ne_zero ?_
      intro hzero
      rw [hzero, cortexLogical2hw_zero hb] at hne
      exact hne rfl
    have := cortexLogical2hw_lt hb hpos (Nat.lt_of_not_le hlt) hp
    omega

end

/-! ## The order of the stack -/

section

variable {P : Program} {b : Nat} {nvic : Nvic} {s t : State} {a : Action} {f : Frame}
  {below : List Frame}

/-- Handlers over idle, with priorities that go up. -/
inductive Stacked : List Frame → Prop where
  | idle (f : Frame) (initial : Option Nat) (hidle : f.handler = none)
      (hbody : f.phase = .body initial) : Stacked [f]
  | handler (f : Frame) (below : List Frame) (t : RticTask) (ht : f.handler = some t)
      (habove : ∀ g ∈ below, g.level < t.args.priority) (hbelow : Stacked below) :
      Stacked (f :: below)

theorem Stacked.level_lt (h : Stacked (f :: below)) : ∀ g ∈ below, g.level < f.level := by
  cases h with
  | idle _ initial hidle hbody =>
    intro g hg
    cases hg
  | handler _ _ t ht habove hbelow =>
    have hlevel : f.level = t.args.priority := by
      rw [Frame.level, ht]
      rfl
    exact hlevel ▸ habove

theorem stacked_init : Stacked State.init.frames := .idle _ none rfl rfl

/-- The core executes at the priority of some context, or below every one. -/
theorem State.lt_active {hw : Nat} :
    hw < s.active nvic ↔ hw < 2 ^ 8 ∧ ∀ f ∈ s.frames, hw < f.hwPriority nvic := by
  unfold State.active
  induction s.frames with
  | nil => simp
  | cons f frames ih =>
    rw [List.foldr_cons, Nat.lt_min, ih, List.forall_mem_cons]
    exact and_left_comm

theorem Frame.Ok.hwPriority (hboot : P.boot b = .ok nvic) (hf : f.Ok P) {t : RticTask}
    (ht : f.handler = some t) :
    f.hwPriority nvic = cortexLogical2hw (asU8 t.args.priority) b := by
  obtain ⟨hmem, hbinds⟩ := hf.bound t ht
  obtain ⟨irq, hirq⟩ := Option.isSome_iff_exists.mp hbinds
  rw [Frame.hwPriority, ht]
  show (t.args.binds.map nvic.priority).getD (2 ^ 8) = _
  rw [hirq]
  exact Program.boot_priority_of_binds hboot hmem hirq

theorem Frame.level_lt_iff (hb : PrioBits b) (hboot : P.boot b = .ok nvic)
    (hprio : ∀ t ∈ P.sub.tasks, t.args.binds.isSome = true →
      1 ≤ t.args.priority ∧ t.args.priority ≤ 2 ^ b)
    (hf : f.Ok P) {p : Nat} (h₁ : 1 ≤ p) (hp : p ≤ 2 ^ b) :
    cortexLogical2hw p b < f.hwPriority nvic ↔ f.level < p := by
  cases ht : f.handler with
  | none =>
    have hlevel : f.level = 0 := by rw [Frame.level, ht]; rfl
    have hhw : f.hwPriority nvic = 2 ^ 8 := by rw [Frame.hwPriority, ht]
    rw [hlevel, hhw]
    exact iff_of_true (Nat.mod_lt _ (by decide)) h₁
  | some t =>
    obtain ⟨hmem, hbinds⟩ := hf.bound t ht
    obtain ⟨h₁', hp'⟩ := hprio t hmem hbinds
    have hlevel : f.level = t.args.priority := by rw [Frame.level, ht]; rfl
    rw [hlevel, hf.hwPriority hboot ht, asU8_of_le hb hp']
    constructor
    · intro hlt
      by_contra hle
      have := cortexLogical2hw_le hb h₁ (Nat.le_of_not_lt hle) hp'
      omega
    · intro hlt
      exact cortexLogical2hw_lt hb h₁' hlt hp

/-- A step of a context keeps it a handler, or idle in its body. -/
theorem Frame.step_idle {o : Op} {regs : Regs} {r : Frame.Result} {initial : Option Nat}
    (hidle : f.handler = none) (hbody : f.phase = .body initial)
    (h : f.step P b regs o = some r) : r.2.1.phase = .body initial := by
  cases o with
  | run =>
    change f.run regs = some r at h
    unfold Frame.run at h
    rw [hbody] at h
    cases h
  | exec u =>
    change f.exec P regs u = some r at h
    unfold Frame.exec at h
    split at h
    · obtain ⟨-, h⟩ := Option.ite_none_right_eq_some.mp h
      cases h
      exact hbody
    · cases h
  | lock resource =>
    change f.lock P regs resource = some r at h
    unfold Frame.lock at h
    split at h
    · obtain ⟨-, h⟩ := Option.ite_none_right_eq_some.mp h
      cases h
      exact hbody
    · cases h
  | advance =>
    change f.advance b regs = some r at h
    unfold Frame.advance at h
    split at h
    · obtain ⟨next, -, rfl⟩ := Option.map_eq_some_iff.mp h
      exact hbody
    · cases h
  | unlock =>
    change f.unlock regs = some r at h
    unfold Frame.unlock at h
    split at h
    · obtain ⟨next, -, rfl⟩ := Option.map_eq_some_iff.mp h
      exact hbody
    · cases h
  | restore =>
    change f.restore regs = some r at h
    unfold Frame.restore at h
    rw [hidle] at h
    split at h
    · rename_i hhandler _
      cases hhandler
    · cases h

theorem Stacked.step (hb : PrioBits b) (hboot : P.boot b = .ok nvic)
    (hprio : ∀ t ∈ P.sub.tasks, t.args.binds.isSome = true →
      1 ≤ t.args.priority ∧ t.args.priority ≤ 2 ^ b)
    (hs : Restoring P b s) (hst : Stacked s.frames) (h : Step P b nvic s a t) :
    Stacked t.frames := by
  cases h with
  | pend irq pended => exact hst
  | take irq h pended hirq hcan =>
    obtain ⟨hmem, hbinds⟩ := Program.handler_eq_some hirq
    obtain ⟨h₁, hmax⟩ := hprio h hmem (by rw [hbinds]; rfl)
    refine .handler _ _ h rfl ?_ hst
    intro g hg
    have hlt := (State.lt_active.mp hcan.2.2.1).2 g hg
    rw [Program.boot_priority hboot hirq, asU8_of_le hb hmax] at hlt
    exact (Frame.level_lt_iff hb hboot hprio (hs.frames g hg) h₁ hmax).mp hlt
  | op o f frames r hframes hstep =>
    have hok := hs.frames f (hframes ▸ List.mem_cons_self)
    have hchain := hs.chain
    rw [hframes] at hchain hst
    have hhandler := (hok.step hchain.1 hstep).handler
    show Stacked (r.2.1 :: frames)
    cases hst with
    | idle _ initial hidle hbody =>
      exact .idle _ initial (hhandler.trans hidle) (Frame.step_idle hidle hbody hstep)
    | handler _ _ u hu habove hbelow =>
      exact .handler _ _ u (hhandler.trans hu) habove hbelow
  | ret f frames hframes hleft =>
    rw [hframes] at hst
    show Stacked frames
    cases hst with
    | idle _ initial hidle hbody =>
      rw [hleft] at hbody
      cases hbody
    | handler _ _ u hu habove hbelow => exact hbelow

/-- The invariants of the runs that lock what the device supports. -/
theorem stack_exec (hb : PrioBits b) (hboot : P.boot b = .ok nvic)
    (hceiling : ∀ resource e, P.sub.getField resource = some e →
      e.priority = Core.ceiling P.sub.tasks resource)
    (hprio : ∀ t ∈ P.sub.tasks, t.args.binds.isSome = true →
      1 ≤ t.args.priority ∧ t.args.priority ≤ 2 ^ b)
    {as : List Action} (h : (machine P b nvic).exec .init as = some s)
    (halong : (machine P b nvic).Along (LocksSupported P b) .init as) :
    Restoring P b s ∧ Exclusive P b s ∧ Stacked s.frames := by
  refine halong.invariant (P := fun s => Restoring P b s ∧ Exclusive P b s ∧ Stacked s.frames) ?_
    ⟨restoring_init, exclusive_init, stacked_init⟩ h
  intro s a t hs ha hst
  have hstep := State.step_cases hst
  exact ⟨hs.1.step hb hboot hstep, hs.2.1.step hb hboot hceiling hprio hs.1 ha hstep,
    hs.2.2.step hb hboot hprio hs.1 hstep⟩

/-- What an interrupt waits for that outranks the context on top. -/
theorem canTake_iff (hb : PrioBits b) (hboot : P.boot b = .ok nvic)
    (hprio : ∀ t ∈ P.sub.tasks, t.args.binds.isSome = true →
      1 ≤ t.args.priority ∧ t.args.priority ≤ 2 ^ b)
    (hr : Restoring P b s) (he : Exclusive P b s) (hst : Stacked s.frames)
    (hframes : s.frames = f :: below) {irq : Ident} (hpended : irq ∈ s.pended) {h : RticTask}
    (hirq : P.handler irq = some h) (habove : f.level < h.args.priority) :
    s.CanTake nvic irq ↔ ∀ resource ∈ f.held, P.ceiling resource < h.args.priority := by
  obtain ⟨hmem, hbinds⟩ := Program.handler_eq_some hirq
  obtain ⟨h₁, hmax⟩ := hprio h hmem (by rw [hbinds]; rfl)
  have hhw : nvic.priority irq = cortexLogical2hw h.args.priority b := by
    rw [Program.boot_priority hboot hirq, asU8_of_le hb hmax]
  constructor
  · intro hcan resource hheld
    exact he.start hb hboot hprio hr hirq hcan f (hframes ▸ List.mem_cons_self) resource hheld
  · intro hheld
    have hlevels : ∀ g ∈ s.frames, g.level < h.args.priority := by
      intro g hg
      rw [hframes] at hg hst
      rcases List.mem_cons.mp hg with rfl | hg
      · exact habove
      · exact Nat.lt_trans (hst.level_lt g hg) habove
    refine ⟨hpended, Program.boot_enabled hboot hirq, ?_, ?_⟩
    · rw [hhw]
      refine State.lt_active.mpr ⟨Nat.mod_lt _ (by decide), ?_⟩
      intro g hg
      exact (Frame.level_lt_iff hb hboot hprio (hr.frames g hg) h₁ hmax).mpr (hlevels g hg)
    · rw [hhw]
      intro hmasks
      obtain ⟨g, hg, l, hl, hblocks⟩ := hr.chain.blocks hmasks
      have hle : h.args.priority ≤ P.ceiling l.resource := by
        rw [← (he.locks g hg l hl).ceiling]
        exact hblocks.le_ceiling hb hmax
      have hlheld : l.resource ∈ g.held := Frame.mem_held.mpr ⟨l, hl, hblocks.1, rfl⟩
      refine absurd ?_ (Nat.not_lt.mpr hle)
      -- only the context on top can hold something that reaches so far
      have hadm := he.admissible
      rw [hframes] at hg hadm
      rcases List.mem_cons.mp hg with rfl | hg
      · exact hheld _ hlheld
      · exact hadm.below_lt habove g.activity (List.mem_map_of_mem hg) _ hlheld

end

/-! ## Winding up -/

/-- The steps by which contexts get done: none begins, and none takes a lock. -/
def Action.Finishing : Action → Prop
  | .op .run | .op .advance | .op .unlock | .op .restore | .ret => True
  | _ => False

def LockStage.work : LockStage → Nat
  | .enter => 3
  | .basepriRead _ | .primaskRead _ => 2
  | .raised _ | .free _ => 1

def Phase.work : Phase → Nat
  | .entry => 3
  | .body _ => 2
  | .left => 1

/-- The steps that a context still takes. -/
def Frame.work (f : Frame) : Nat := (f.locks.map (·.stage.work)).sum + f.phase.work

def State.work (s : State) : Nat := (s.frames.map Frame.work).sum

section

variable {P : Program} {b : Nat} {nvic : Nvic} {s t : State} {a : Action} {f : Frame}
  {regs : Regs} {r : Frame.Result} {o : Op}

theorem Lock.work_advance {l l' : Lock} {regs' : Regs}
    (h : l.advance b regs = some (regs', l')) : l'.stage.work < l.stage.work := by
  unfold Lock.advance at h
  split at h
  · rename_i hst
    rw [hst]
    split at h
    · cases h
      exact Nat.lt_succ_self 2
    · cases h
      exact Nat.lt_succ_self 2
  · rename_i hst
    rw [hst]
    cases h
    exact Nat.lt_succ_self 1
  · rename_i hst
    rw [hst]
    cases h
    exact Nat.lt_succ_self 1
  · cases h
  · cases h

theorem LockStage.work_pos (stage : LockStage) : 0 < stage.work := by
  cases stage with
  | enter => exact Nat.succ_pos 2
  | basepriRead current => exact Nat.succ_pos 1
  | raised current => exact Nat.succ_pos 0
  | primaskRead active => exact Nat.succ_pos 1
  | free active => exact Nat.succ_pos 0

theorem Frame.work_step (ho : Action.Finishing (.op o)) (h : f.step P b regs o = some r) :
    r.2.1.work < f.work := by
  unfold Frame.work
  cases o with
  | run =>
    change f.run regs = some r at h
    unfold Frame.run at h
    split at h
    · rename_i hentry _
      cases h
      rw [hentry]
      exact Nat.add_lt_add_left (Nat.lt_succ_self 2) _
    · cases h
  | exec u => cases ho
  | lock resource => cases ho
  | advance =>
    change f.advance b regs = some r at h
    unfold Frame.advance at h
    split at h
    · rename_i l locks hlocks
      obtain ⟨next, hl, rfl⟩ := Option.map_eq_some_iff.mp h
      have hlt := Lock.work_advance hl
      rw [hlocks]
      simp only [List.map_cons, List.sum_cons]
      omega
    · cases h
  | unlock =>
    change f.unlock regs = some r at h
    unfold Frame.unlock at h
    split at h
    · rename_i l locks hlocks
      obtain ⟨regs', -, rfl⟩ := Option.map_eq_some_iff.mp h
      have hpos := l.stage.work_pos
      rw [hlocks]
      simp only [List.map_cons, List.sum_cons]
      omega
    · cases h
  | restore =>
    change f.restore regs = some r at h
    unfold Frame.restore at h
    split at h
    · rename_i initial t hbody _ _
      cases h
      rw [hbody]
      exact Nat.add_lt_add_left (Nat.lt_succ_self 1) _
    · cases h

theorem State.work_step (ha : a.Finishing) (h : Step P b nvic s a t) : t.work < s.work := by
  unfold State.work
  cases h with
  | pend irq pended => cases ha
  | take irq h pended hirq hcan => cases ha
  | op o f frames r hframes hstep =>
    have hlt := Frame.work_step ha hstep
    rw [hframes, List.map_cons, List.map_cons, List.sum_cons, List.sum_cons]
    omega
  | ret f frames hframes hleft =>
    have hpos : 0 < f.work := by
      unfold Frame.work
      rw [hleft]
      exact Nat.add_pos_right _ Nat.one_pos
    show (frames.map Frame.work).sum < _
    rw [hframes, List.map_cons, List.sum_cons]
    omega

/-- Idle alone, outside its critical sections. -/
def State.Unwound (s : State) : Prop :=
  s.regs = .reset ∧ ∃ idle, s.frames = [idle] ∧ idle.handler = none ∧ idle.locks = []

/-- A lock can always go on, into its closure and out of it. -/
theorem Lock.progress (b : Nat) (regs : Regs) (l : Lock) :
    (∃ next, l.advance b regs = some next) ∨ ∃ regs', l.leave regs = some regs' := by
  unfold Lock.advance Lock.leave
  cases l.stage with
  | enter =>
    refine Or.inl ?_
    by_cases h : l.ceiling = 2 ^ b
    · exact ⟨_, if_pos h⟩
    · exact ⟨_, if_neg h⟩
  | basepriRead current => exact Or.inl ⟨_, rfl⟩
  | raised current => exact Or.inr ⟨_, rfl⟩
  | primaskRead active => exact Or.inl ⟨_, rfl⟩
  | free active => exact Or.inr ⟨_, rfl⟩

/-- A context can go on until it has left, and idle until it is out of its locks. -/
theorem Frame.progress (P : Program) (b : Nat) (regs : Regs) (f : Frame) :
    (∃ o r, Action.Finishing (.op o) ∧ f.step P b regs o = some r) ∨ f.phase = .left ∨
      f.handler = none ∧ f.locks = [] := by
  cases hlocks : f.locks with
  | cons l locks =>
    refine Or.inl ?_
    rcases l.progress b regs with ⟨next, hl⟩ | ⟨regs', hl⟩
    · refine ⟨.advance, (next.1, { f with locks := next.2 :: locks }, []), trivial, ?_⟩
      show f.advance b regs = _
      unfold Frame.advance
      rw [hlocks]
      exact Option.map_eq_some_iff.mpr ⟨next, hl, rfl⟩
    · refine ⟨.unlock, (regs', { f with locks := locks }, [(l.found, regs')]), trivial, ?_⟩
      show f.unlock regs = _
      unfold Frame.unlock
      rw [hlocks]
      exact Option.map_eq_some_iff.mpr ⟨regs', hl, rfl⟩
  | nil =>
    cases hhandler : f.handler with
    | none => exact Or.inr (Or.inr ⟨rfl, rfl⟩)
    | some t =>
      cases hphase : f.phase with
      | entry =>
        have hrun : ∃ r, f.run regs = some r := by
          unfold Frame.run
          rw [hphase, hhandler]
          exact ⟨_, rfl⟩
        obtain ⟨r, hr⟩ := hrun
        exact Or.inl ⟨.run, r, trivial, hr⟩
      | body initial =>
        have hrestore : ∃ r, f.restore regs = some r := by
          unfold Frame.restore
          rw [hphase, hhandler, hlocks]
          exact ⟨_, rfl⟩
        obtain ⟨r, hr⟩ := hrestore
        exact Or.inl ⟨.restore, r, trivial, hr⟩
      | left => exact Or.inr (Or.inl rfl)

/-- **No context waits for another one.** -/
theorem State.progress (nvic : Nvic) (hr : Restoring P b s) (hst : Stacked s.frames) :
    s.Unwound ∨ ∃ a t, a.Finishing ∧ (machine P b nvic).step s a = some t := by
  obtain ⟨f, below, hframes⟩ : ∃ f below, s.frames = f :: below := by
    generalize s.frames = frames at hst
    cases hst with
    | idle f => exact ⟨f, [], rfl⟩
    | handler f below => exact ⟨f, below, rfl⟩
  rcases f.progress P b s.regs with ⟨o, r, ho, hstep⟩ | hleft | ⟨hidle, hlocks⟩
  · refine Or.inr ⟨.op o, { s with regs := r.1, frames := r.2.1 :: below, exits := r.2.2 ++ s.exits },
      ho, ?_⟩
    show s.op P b o = _
    unfold State.op
    rw [hframes]
    exact Option.map_eq_some_iff.mpr ⟨r, hstep, rfl⟩
  · refine Or.inr ⟨.ret, { s with frames := below }, trivial, ?_⟩
    show s.ret = _
    unfold State.ret
    rw [hframes]
    exact if_pos hleft
  · -- idle is at the bottom, and no lock is left that has changed the registers
    have hchain := hr.chain
    rw [hframes] at hst hchain
    cases hst with
    | idle _ initial _ hbody =>
      refine Or.inl ⟨?_, f, hframes, hidle, hlocks⟩
      have hregs := hchain.1
      rw [hlocks] at hregs
      exact Eq.trans hregs hchain.2
    | handler _ _ t ht habove hbelow =>
      rw [hidle] at ht
      cases ht

theorem Step.pended (ha : a.Finishing) (h : Step P b nvic s a t) : t.pended = s.pended := by
  cases h with
  | pend irq pended => cases ha
  | take irq h pended hirq hcan => cases ha
  | op o f frames r hframes hstep => rfl
  | ret f frames hframes hleft => rfl

end

/-! ## Results -/

section

variable {args : AppArgs} {items : List Item} {app app' : App} {analysis : Analysis}

/-- **An interrupt waits for one critical section.** With priorities and ceilings that the device has,
a pending interrupt that outranks the context that runs is taken unless this context holds a
resource whose ceiling reaches the interrupt. What the preempted contexts hold never delays it. -/
theorem basepri_single_blocking (hparse : App.parse args items = .ok app)
    (hrun : Analysis.run app = .ok (app', analysis)) (P : Program) (hsub : P.sub ∈ app'.subApps)
    {b : Nat} (hb : PrioBits b)
    (hprio : ∀ t ∈ P.sub.tasks, t.args.binds.isSome = true →
      1 ≤ t.args.priority ∧ t.args.priority ≤ 2 ^ b) :
    ∃ nvic, P.boot b = .ok nvic ∧
      ∀ as s, (machine P b nvic).exec .init as = some s →
        (machine P b nvic).Along (LocksSupported P b) .init as →
        ∀ f below irq h, s.frames = f :: below → irq ∈ s.pended → P.handler irq = some h →
          f.level < h.args.priority →
          (s.CanTake nvic irq ↔ ∀ resource ∈ f.held, P.ceiling resource < h.args.priority) := by
  have hceiling : ∀ resource e, P.sub.getField resource = some e →
      e.priority = Core.ceiling P.sub.tasks resource :=
    fun resource e he => Analysis.run_ceiling hparse hrun hsub he
  obtain ⟨nvic, hboot⟩ := Program.boot_ok fun t ht hbinds => (hprio t ht hbinds).2
  refine ⟨nvic, hboot, ?_⟩
  intro as s hexec halong f below irq h hframes hpended hirq habove
  obtain ⟨hr, he, hst⟩ := stack_exec hb hboot hceiling hprio hexec halong
  exact canTake_iff hb hboot hprio hr he hst hframes hpended hirq habove

end

section

variable {P : Program} {b : Nat}

theorem stacked_exec {nvic : Nvic} {s : State} (hb : PrioBits b) (hboot : P.boot b = .ok nvic)
    (hprio : ∀ t ∈ P.sub.tasks, t.args.binds.isSome = true →
      1 ≤ t.args.priority ∧ t.args.priority ≤ 2 ^ b)
    {as : List Action} (h : (machine P b nvic).exec .init as = some s) :
    Restoring P b s ∧ Stacked s.frames := by
  refine Machine.exec_invariant (P := fun s => Restoring P b s ∧ Stacked s.frames) ?_
    ⟨restoring_init, stacked_init⟩ h
  intro s a t hs hst
  have hstep := State.step_cases hst
  exact ⟨hs.1.step hb hboot hstep, hs.2.step hb hboot hprio hs.1 hstep⟩

theorem Stacked.pairwise {frames : List Frame} (h : Stacked frames) :
    frames.Pairwise fun f g => g.level < f.level := by
  induction h with
  | idle f initial hidle hbody => exact List.pairwise_singleton _ f
  | handler f below t ht habove hbelow ih =>
    refine List.Pairwise.cons ?_ ih
    exact (Stacked.handler f below t ht habove hbelow).level_lt

/-- The priorities of the handlers. -/
def Program.handlerPriorities (P : Program) : List Nat :=
  (P.sub.tasks.filter (·.args.binds.isSome)).map (·.args.priority)

theorem Frame.Ok.level_mem {f : Frame} (hf : f.Ok P) :
    f.level ∈ 0 :: Program.handlerPriorities P := by
  unfold Frame.level
  cases ht : f.handler with
  | none => exact List.mem_cons_self
  | some t =>
    obtain ⟨hmem, hbinds⟩ := hf.bound t ht
    refine List.mem_cons_of_mem _ (List.mem_map.mpr ⟨t, ?_, rfl⟩)
    exact List.mem_filter.mpr ⟨hmem, hbinds⟩

theorem length_dedup_cons_le (a : Nat) (l : List Nat) :
    (a :: l).dedup.length ≤ l.dedup.length + 1 := by
  by_cases h : a ∈ l
  · rw [List.dedup_cons_of_mem h]
    exact Nat.le_succ _
  · rw [List.dedup_cons_of_notMem h, List.length_cons]

/-- **Contexts are nested by priority.** With priorities that the device has, they go up in every run
from idle to the context that runs, so there is room for all contexts that begin in one for each
priority of a bound task besides idle. -/
theorem basepri_stack_bound (hb : PrioBits b)
    (hprio : ∀ t ∈ P.sub.tasks, t.args.binds.isSome = true →
      1 ≤ t.args.priority ∧ t.args.priority ≤ 2 ^ b) :
    ∃ nvic, P.boot b = .ok nvic ∧
      ∀ as s, (machine P b nvic).exec .init as = some s →
        s.frames.Pairwise (fun f g => g.level < f.level) ∧
        s.frames.length ≤ (Program.handlerPriorities P).dedup.length + 1 := by
  obtain ⟨nvic, hboot⟩ := Program.boot_ok fun t ht hbinds => (hprio t ht hbinds).2
  refine ⟨nvic, hboot, ?_⟩
  intro as s hexec
  obtain ⟨hr, hst⟩ := stacked_exec hb hboot hprio hexec
  refine ⟨hst.pairwise, ?_⟩
  have hordered : Ceiling.Ordered (s.frames.map Frame.activity) :=
    List.pairwise_map.mpr hst.pairwise
  have hlevel : ∀ a ∈ s.frames.map Frame.activity, a.level ∈ 0 :: Program.handlerPriorities P := by
    intro a ha
    obtain ⟨f, hf, rfl⟩ := List.mem_map.mp ha
    exact (hr.frames f hf).level_mem
  have hle := hordered.length_le hlevel
  rw [List.length_map] at hle
  exact Nat.le_trans hle (length_dedup_cons_le 0 _)

/-- **The stack can always be wound up.** With priorities that the device has, from every state of a
run, contexts that begin nothing new go on for at most `State.work` steps, and as long as they have
not got back to idle alone, with the registers as they were at the start, one of them can go on. -/
theorem basepri_unwinds (hb : PrioBits b)
    (hprio : ∀ t ∈ P.sub.tasks, t.args.binds.isSome = true →
      1 ≤ t.args.priority ∧ t.args.priority ≤ 2 ^ b) :
    ∃ nvic, P.boot b = .ok nvic ∧
      ∀ as s, (machine P b nvic).exec .init as = some s →
        (∀ bs t, (∀ a ∈ bs, a.Finishing) → (machine P b nvic).exec s bs = some t →
          bs.length ≤ s.work ∧ t.pended = s.pended ∧
            (t.Unwound ∨ ∃ a u, a.Finishing ∧ (machine P b nvic).step t a = some u)) ∧
        ∃ bs t, (∀ a ∈ bs, a.Finishing) ∧ (machine P b nvic).exec s bs = some t ∧ t.Unwound := by
  obtain ⟨nvic, hboot⟩ := Program.boot_ok fun t ht hbinds => (hprio t ht hbinds).2
  refine ⟨nvic, hboot, ?_⟩
  intro as s hexec
  have hstep : ∀ u a v, (Restoring P b u ∧ Stacked u.frames) ∧ u.pended = s.pended →
      Action.Finishing a → (machine P b nvic).step u a = some v →
      ((Restoring P b v ∧ Stacked v.frames) ∧ v.pended = s.pended) ∧ v.work < u.work := by
    intro u a v hu ha hv
    have hv := State.step_cases hv
    exact ⟨⟨⟨hu.1.1.step hb hboot hv, hu.1.2.step hb hboot hprio hu.1.1 hv⟩,
      (hv.pended ha).trans hu.2⟩, State.work_step ha hv⟩
  have hs : (Restoring P b s ∧ Stacked s.frames) ∧ s.pended = s.pended :=
    ⟨stacked_exec hb hboot hprio hexec, rfl⟩
  refine ⟨?_, Machine.exists_exec hstep (fun u hu => u.progress nvic hu.1.1 hu.1.2) hs⟩
  intro bs t hfinishing ht
  obtain ⟨hu, hle⟩ := Machine.exec_length_le hstep hs hfinishing ht
  exact ⟨by omega, hu.2, t.progress nvic hu.1.1 hu.1.2⟩

end

/-! ## Runs -/

/-- The first sharer is in its critical section when the second one and the third task are
pended. -/
def waitingRun : List Action := inLock "I2" taskA "r" ++ [.pend "I3", .pend "I4"]

/-- The second sharer waits for the first, and the third task does not. -/
theorem basepri_single_blocking_run :
    ∃ nvic s, (sharersProgram 1).boot 3 = .ok nvic ∧
      (machine (sharersProgram 1) 3 nvic).exec .init waitingRun = some s ∧
      ¬ s.CanTake nvic "I3" ∧ s.CanTake nvic "I4" := by
  have hparse : App.parse sharersArgs (sharers 1) =
      .ok (sharersApp 1 [⟨"r", 0⟩, ⟨"q", 0⟩]) := by decide +kernel
  have hrun : Analysis.run (sharersApp 1 [⟨"r", 0⟩, ⟨"q", 0⟩]) =
      .ok (sharersApp 1 [⟨"r", 3⟩, ⟨"q", 4⟩], _) := rfl
  obtain ⟨nvic, hboot, h⟩ := basepri_single_blocking hparse hrun (sharersProgram 1)
    List.mem_cons_self (b := 3) ⟨by decide, by decide⟩ (sharers_supported 1)
  have hexec : ((sharersProgram 1).boot 3).map (fun nvic =>
      (((machine (sharersProgram 1) 3 nvic).exec .init waitingRun).map fun s =>
        (s.frames.map Frame.level, s.frames.map Frame.held ++ [s.pended]),
      decide ((machine (sharersProgram 1) 3 nvic).Along (LocksSupported (sharersProgram 1) 3) .init
        waitingRun))) = .ok (some ([2, 0], [["r"], [], ["I4", "I3"]]), true) := by
    decide +kernel
  rw [hboot] at hexec
  obtain ⟨hexec, halong⟩ := Prod.mk.inj (Except.ok.inj hexec)
  obtain ⟨s, hs, hobs⟩ := Option.map_eq_some_iff.mp hexec
  obtain ⟨hlevels, hobs⟩ := Prod.mk.inj hobs
  obtain ⟨f, below, hcons, hlevel, hbelow⟩ := List.map_eq_cons_iff.mp hlevels
  obtain ⟨g, nothing, rfl, -, hnothing⟩ := List.map_eq_cons_iff.mp hbelow
  obtain rfl := List.map_eq_nil_iff.mp hnothing
  rw [hcons] at hobs
  have hheld : f.held = ["r"] := (List.cons.inj hobs).1
  have hpended : s.pended = ["I4", "I3"] := (List.cons.inj (List.cons.inj (List.cons.inj hobs).2).2).1
  have hcan := fun irq t hirq => h _ s hs (of_decide_eq_true halong) f [g] irq t hcons hirq
  refine ⟨nvic, s, hboot, hs, ?_, ?_⟩
  · rw [hcan "I3" taskB (hpended ▸ by decide) rfl (hlevel ▸ by decide), hheld]
    decide +kernel
  · rw [hcan "I4" taskC (hpended ▸ by decide) rfl (hlevel ▸ by decide), hheld]
    decide +kernel

/-- With three priorities in use there are two handlers on the stack. -/
theorem basepri_stack_bound_run :
    ∃ nvic s, (sharersProgram 1).boot 3 = .ok nvic ∧
      (machine (sharersProgram 1) 3 nvic).exec .init preemptedRun = some s ∧
      s.frames.Pairwise (fun f g => g.level < f.level) ∧ s.frames.length = 3 ∧
      s.frames.length ≤ (Program.handlerPriorities (sharersProgram 1)).dedup.length + 1 := by
  obtain ⟨nvic, hboot, h⟩ := basepri_stack_bound (P := sharersProgram 1) (b := 3)
    ⟨by decide, by decide⟩ (sharers_supported 1)
  have hexec : ((sharersProgram 1).boot 3).map (fun nvic =>
      ((machine (sharersProgram 1) 3 nvic).exec .init preemptedRun).map (·.frames.length)) =
        .ok (some 3) := by
    decide +kernel
  rw [hboot] at hexec
  obtain ⟨s, hs, hlength⟩ := Option.map_eq_some_iff.mp (Except.ok.inj hexec)
  obtain ⟨hpairwise, hle⟩ := h _ s hs
  exact ⟨nvic, s, hboot, hs, hpairwise, hlength, hle⟩

/-- Two handlers in their critical sections are wound up. -/
theorem basepri_unwinds_run :
    ∃ nvic s, (sharersProgram 1).boot 3 = .ok nvic ∧
      (machine (sharersProgram 1) 3 nvic).exec .init preemptedRun = some s ∧ s.work = 8 ∧
      ∃ bs t, (∀ a ∈ bs, a.Finishing) ∧ bs.length ≤ 8 ∧
        (machine (sharersProgram 1) 3 nvic).exec s bs = some t ∧ t.Unwound := by
  obtain ⟨nvic, hboot, h⟩ := basepri_unwinds (P := sharersProgram 1) (b := 3)
    ⟨by decide, by decide⟩ (sharers_supported 1)
  have hexec : ((sharersProgram 1).boot 3).map (fun nvic =>
      ((machine (sharersProgram 1) 3 nvic).exec .init preemptedRun).map State.work) =
        .ok (some 8) := by
    decide +kernel
  rw [hboot] at hexec
  obtain ⟨s, hs, hwork⟩ := Option.map_eq_some_iff.mp (Except.ok.inj hexec)
  obtain ⟨hbound, bs, t, hfinishing, ht, hunwound⟩ := h _ s hs
  exact ⟨nvic, s, hboot, hs, hwork, bs, t, hfinishing, hwork ▸ (hbound bs t hfinishing ht).1, ht,
    hunwound⟩

end Basepri

end Rticx.CortexM
