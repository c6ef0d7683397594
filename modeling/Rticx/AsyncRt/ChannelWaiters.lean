import Rticx.AsyncRt.ChannelSlots

/-!
# Waiting senders and free slots

A sender gets in line only if there is no free slot or somebody is in line already, and a slot
that is given back goes to the head of the line; so the line and `freeq` are never both non-empty.
How long a sender has been in line is not in the memory: the machine is given a clock that notes
when each sender got in.
-/

namespace Rticx.AsyncRt.Channel

open Lib

variable {T : Type} {N : Nat} {s s' : State T} {ids live : List Nat} {p i : Nat}

/-! ## Events -/

/-- The link of the sender is in the wait queue. -/
def State.waits (s : State T) (p : Nat) : Bool :=
  match s.chan.waitQueue.status p with
  | some (_, isPopped) => !isPopped
  | none => false

/-- The slot that the step gives to `return_free_slot`. -/
def State.frees (s : State T) : Action T → Option Nat
  | .receiver =>
    match s.receiver with
    | .returnSlot i _ => some i
    | _ => none
  | .sender p =>
    match s.senders p with
    | .returnSlot _ _ => s.chan.cells p
    | _ => none
  | _ => none

/-- The send future was dropped while it was pending, and its dropper runs. -/
def State.cancelled (s : State T) (p : Nat) : Bool :=
  match s.senders p with
  | .unlink _ .cancelled | .returnSlot _ .cancelled => true
  | _ => false

/-- When each sender got in line for the last time. -/
structure Arrivals where
  now : Nat
  since : Nat → Nat

/-- A step takes one tick. -/
def Arrivals.next (t : Arrivals) (s s' : State T) : Arrivals where
  now := t.now + 1
  since p := if s'.waits p && !s.waits p then t.now else t.since p

/-- The channel with its parties and a clock. -/
def timed (T : Type) (N : Nat) : Machine (State T × Arrivals) (Action T) :=
  (machine T N).withHistory { now := 0, since := fun _ => 0 } Arrivals.next

theorem waits_iff (h : s.chan.waitQueue.Represents ids) : s.waits p = true ↔ p ∈ ids := by
  rw [h.mem_iff]
  unfold State.waits
  constructor
  · intro hw
    split at hw
    · rename_i v b hst
      obtain rfl : b = false := by simpa using hw
      exact ⟨v, hst⟩
    · cases hw
  · rintro ⟨v, hv⟩
    rw [hv]
    rfl

/-! ## The line -/

/-- What a step does to the line and to `freeq`. -/
inductive LineStep (s : State T) (a : Action T) (s' : State T) : List Nat → List Nat → Prop where
  /-- at most a slot is taken -/
  | stay {ids : List Nat} : s.frees a = none → s'.chan.freeq.Sublist s.chan.freeq →
    LineStep s a s' ids ids
  /-- a poll that finds no slot, or finds others in line -/
  | enter {ids : List Nat} (p : Nat) : s.frees a = none → p ∉ ids →
    (ids ≠ [] ∨ s.chan.freeq = []) → s'.chan.freeq = s.chan.freeq → LineStep s a s' ids (ids ++ [p])
  /-- a dropper -/
  | leave {ids : List Nat} (p : Nat) : s.frees a = none → s'.chan.freeq = s.chan.freeq →
    LineStep s a s' ids (ids.erase p)
  /-- the slot goes to the first in line -/
  | hand {ids : List Nat} (p i : Nat) : s.frees a = some i → s'.chan.cells p = some i →
    s'.chan.freeq = s.chan.freeq → LineStep s a s' (p :: ids) ids
  /-- nobody is in line -/
  | free (i : Nat) : s.frees a = some i → s'.chan.freeq = s.chan.freeq ++ [i] →
    LineStep s a s' [] []
  /-- the receiver is dropped and wakes everybody -/
  | wakeAll {ids : List Nat} (p : Nat) : s.frees a = none → s'.chan.freeq = s.chan.freeq →
    LineStep s a s' (p :: ids) ids

/-- `return_free_slot` serves the first in line. -/
theorem returnFreeSlot_hand {c c' : Channel (Msg T)} {senders : Nat → Sender T} {q : Nat}
    {woken : Option Waker} (h : Waiting c.waitQueue c.cells senders (q :: ids))
    (hret : c.returnFreeSlot N i = some (c', woken)) :
    c'.waitQueue.Represents ids ∧ c'.cells = Function.update c.cells q (some i) ∧
      c'.freeq = c.freeq ∧ ∃ v, c.waitQueue.status q = some (v, false) ∧
        c'.waitQueue.status = Function.update c.waitQueue.status q (some (v, true)) := by
  obtain ⟨⟨waker, r⟩, w', hst, hpop, hrep, hstatus⟩ := h.represents.pop_cons
  obtain rfl : r = q := h.own q (waker, r) false hst
  rw [returnFreeSlot, hpop] at hret
  cases hret
  exact ⟨hrep, rfl, rfl, (waker, r), hst, hstatus⟩

/-- With nobody in line it fills `freeq`. -/
theorem returnFreeSlot_free {c c' : Channel (Msg T)} {woken : Option Waker}
    (h : c.waitQueue.Represents []) (hret : c.returnFreeSlot N i = some (c', woken)) :
    c'.waitQueue = c.waitQueue ∧ c'.cells = c.cells ∧ c'.freeq = c.freeq ++ [i] := by
  rw [returnFreeSlot, h.pop_nil] at hret
  simp only at hret
  split at hret <;> cases hret
  exact ⟨rfl, rfl, rfl⟩

/-- A future that is not in line forgets its link. -/
theorem represents_finish (h : s.chan.waitQueue.Represents ids) (hp : p ∉ ids) (m : Msg T)
    (out : Outcome) : (s.finish p m out).chan.waitQueue.Represents ids := by
  cases out <;> exact (h.take hp).1

@[simp] theorem finish_cells (m : Msg T) (out : Outcome) :
    (s.finish p m out).chan.cells = s.chan.cells := by
  cases out <;> rfl

@[simp] theorem finish_freeq (m : Msg T) (out : Outcome) :
    (s.finish p m out).chan.freeq = s.chan.freeq := by
  cases out <;> rfl

theorem poll_line (h : SlotsInv N s ids live) (m : Msg T) (waker : Waker) :
    ∃ ids', (Channel.poll s p waker m).chan.waitQueue.Represents ids' ∧
      LineStep s (.poll p waker) (Channel.poll s p waker m) ids ids' := by
  have hrep := h.waiting.represents
  unfold Channel.poll
  split
  · exact ⟨ids, hrep, .stay rfl (List.Sublist.refl _)⟩
  · cases hlink : s.chan.waitQueue.links p with
    | some link =>
      have hst : s.chan.waitQueue.status p = some (link.val, link.isPopped) := by
        simp [WaitQueue.status, WaitQueue.statusOf, hlink]
      cases hpop : link.isPopped with
      | false => exact ⟨ids, by simpa [hpop] using hrep, .stay rfl (by simp [hpop])⟩
      | true =>
        rw [hpop] at hst
        have hnot := h.waiting.not_mem_of_popped hst
        simp only [hpop, if_true]
        exact ⟨ids, (hrep.take hnot).1, .stay rfl (List.Sublist.refl _)⟩
    | none =>
      simp only
      split
      · rename_i hfull
        have hnot : p ∉ ids := by
          intro hin
          obtain ⟨l, hl⟩ := hrep.linked.exists hin
          rw [hlink] at hl
          cases hl
        refine ⟨ids ++ [p], (hrep.insert_push hlink _).1, .enter p rfl hnot ?_ rfl⟩
        by_cases hids : ids = []
        · have hempty := hrep.isEmpty_iff.mpr hids
          rw [hempty] at hfull
          exact Or.inr (by simpa using hfull)
        · exact Or.inl hids
      · split
        · exact ⟨ids, hrep, .stay rfl (List.dropLast_sublist _)⟩
        · exact ⟨ids, hrep, .stay rfl (List.Sublist.refl _)⟩

theorem senderStep_line (h : SlotsInv N s ids live) (hs : Channel.senderStep N s p = some s') :
    ∃ ids', s'.chan.waitQueue.Represents ids' ∧ LineStep s (.sender p) s' ids ids' := by
  have hrep := h.waiting.represents
  have hfrees : ∀ {st : Sender T}, s.senders p = st → (∀ m out, st ≠ .returnSlot m out) →
      s.frees (.sender p) = none := by
    intro st hp hst
    cases st with
    | returnSlot m out => exact absurd rfl (hst m out)
    | _ => simp only [State.frees, hp]
  unfold Channel.senderStep at hs
  cases hp : s.senders p with
  | absent | idle | sending m w | dropped => rw [hp] at hs; cases hs
  | tryWaitQueue m | tryClosed m | write i m | push i m =>
    have hf := hfrees hp nofun
    simp only [hp] at hs
    split at hs <;> cases hs <;> exact ⟨ids, hrep, .stay hf (List.Sublist.refl _)⟩
  | wake m | dropWake =>
    have hf := hfrees hp nofun
    simp only [hp] at hs
    cases hs
    exact ⟨ids, hrep, .stay hf (List.Sublist.refl _)⟩
  | tryPop m =>
    have hf := hfrees hp nofun
    simp only [hp] at hs
    split at hs <;> cases hs
    · rename_i hfree
      refine ⟨ids, hrep, .stay hf ?_⟩
      rw [hfree]
      exact List.sublist_cons_self ..
    · exact ⟨ids, hrep, .stay hf (List.Sublist.refl _)⟩
  | unlink m out =>
    have hf := hfrees hp nofun
    simp only [hp] at hs
    split at hs <;> cases hs
    · rename_i link hlink
      have hst : s.chan.waitQueue.status p = some (link.val, link.isPopped) := by
        simp [WaitQueue.status, WaitQueue.statusOf, hlink]
      exact ⟨ids.erase p, (hrep.remove hst).1, .leave p hf rfl⟩
    · exact ⟨ids, hrep, .stay hf (List.Sublist.refl _)⟩
  | returnSlot m out =>
    have hf : s.frees (.sender p) = s.chan.cells p := by simp only [State.frees, hp]
    have hpids : p ∉ ids := h.waiting.not_mem (by rw [hp]; rfl)
    simp only [hp] at hs
    cases hcell : s.chan.cells p with
    | none =>
      rw [hcell] at hf hs
      cases hs
      exact ⟨ids, represents_finish hrep hpids m out,
        .stay hf (by rw [finish_freeq])⟩
    | some slot =>
      rw [hcell] at hf
      obtain ⟨chan, woken, -, hret, -, -⟩ := h.returnCell hp hcell
      have hclear := h.waiting.clearCell p
      let c : Channel (Msg T) := { s.chan with cells := Function.update s.chan.cells p none }
      simp only [hcell, hret, Option.some.injEq] at hs
      subst hs
      cases ids with
      | nil =>
        obtain ⟨hw, -, hfree⟩ := returnFreeSlot_free (c := c) hclear.represents hret
        refine ⟨[], represents_finish (hw ▸ hrep) List.not_mem_nil m out, .free slot hf ?_⟩
        rw [finish_freeq]
        exact hfree
      | cons q ids =>
        obtain ⟨hw, hcells, hfree, -⟩ := returnFreeSlot_hand (c := c) hclear hret
        have hpids' : p ∉ ids := fun hin => hpids (List.mem_cons_of_mem q hin)
        refine ⟨ids, represents_finish hw hpids' m out, .hand q slot hf ?_ ?_⟩
        · rw [finish_cells]
          show chan.cells q = some slot
          rw [hcells, Function.update_self]
        · rw [finish_freeq]
          exact hfree

theorem receiverStep_line (h : SlotsInv N s ids live) (hs : Channel.receiverStep N s = some s') :
    ∃ ids', s'.chan.waitQueue.Represents ids' ∧ LineStep s .receiver s' ids ids' := by
  have hrep := h.waiting.represents
  have hfrees : ∀ {st : Receiver T}, s.receiver = st → (∀ i m, st ≠ .returnSlot i m) →
      s.frees .receiver = none := by
    intro st hr hst
    cases st with
    | returnSlot i m => exact absurd rfl (hst i m)
    | _ => simp only [State.frees, hr]
  unfold Channel.receiverStep at hs
  cases hr : s.receiver with
  | idle | dropped => rw [hr] at hs; cases hs
  | pop cx | read i | isClosed cx | drain | drainRead i =>
    have hf := hfrees hr (by intro _ _ h; cases h)
    simp only [hr] at hs
    split at hs <;> cases hs <;> exact ⟨ids, hrep, .stay hf (List.Sublist.refl _)⟩
  | returnSlot i m =>
    have hf : s.frees .receiver = some i := by simp only [State.frees, hr]
    obtain ⟨chan, woken, -, hret, -⟩ := h.returnRead hr
    simp only [hr, hret, Option.some.injEq] at hs
    subst hs
    cases ids with
    | nil =>
      obtain ⟨hw, -, hfree⟩ := returnFreeSlot_free hrep hret
      exact ⟨[], hw ▸ hrep, .free i hf hfree⟩
    | cons q ids =>
      obtain ⟨hw, hcells, hfree, -⟩ := returnFreeSlot_hand h.waiting hret
      refine ⟨ids, hw, .hand q i hf ?_ hfree⟩
      show chan.cells q = some i
      rw [hcells, Function.update_self]
  | wakeAll =>
    have hf := hfrees hr (by intro _ _ h; cases h)
    simp only [hr] at hs
    cases ids with
    | nil =>
      rw [hrep.pop_nil] at hs
      cases hs
      exact ⟨[], hrep, .stay hf (List.Sublist.refl _)⟩
    | cons q ids =>
      obtain ⟨waker, w', hpop, -, hw⟩ := h.waiting.pop_cons
      rw [hpop] at hs
      cases hs
      exact ⟨ids, hw.represents, .wakeAll q hf rfl⟩

/-- **The line changes in these ways only.** -/
theorem step_line (h : SlotsInv N s ids live) {a : Action T}
    (hs : Channel.step N s a = some s') :
    ∃ ids', s'.chan.waitQueue.Represents ids' ∧ LineStep s a s' ids ids' := by
  have hrep := h.waiting.represents
  have stay : ∀ {s' : State T}, s.frees a = none → s'.chan.waitQueue = s.chan.waitQueue →
      s'.chan.freeq = s.chan.freeq →
      ∃ ids', s'.chan.waitQueue.Represents ids' ∧ LineStep s a s' ids ids' := by
    intro s' hf hw hfree
    exact ⟨ids, hw ▸ hrep, .stay hf (hfree ▸ List.Sublist.refl _)⟩
  cases a with
  | trySend q val | send q val | cancel q | clone q r =>
    simp only [Channel.step] at hs
    split at hs <;> cases hs
    exact stay rfl rfl rfl
  | poll q waker =>
    simp only [Channel.step] at hs
    split at hs <;> cases hs
    exact poll_line h _ waker
  | dropSender q =>
    simp only [Channel.step] at hs
    split at hs
    · split at hs <;> cases hs <;> exact stay rfl rfl rfl
    · cases hs
  | sender q => exact senderStep_line h hs
  | tryRecv | dropReceiver =>
    simp only [Channel.step] at hs
    split at hs <;> cases hs
    exact stay rfl rfl rfl
  | recv waker =>
    simp only [Channel.step] at hs
    split at hs <;> cases hs
    refine stay rfl ?_ ?_ <;>
    · unfold State.register
      split <;> rfl
  | receiver => exact receiverStep_line h hs

variable {t : Arrivals}

/--
The senders in line, who have been there for longer the nearer they are to the head, and no free
slot as long as there are any.
-/
structure Line (s : State T) (t : Arrivals) (ids : List Nat) : Prop where
  represents : s.chan.waitQueue.Represents ids
  apart : ids ≠ [] → s.chan.freeq = []
  ordered : ids.Pairwise fun p q => t.since p < t.since q
  past : ∀ p ∈ ids, t.since p < t.now

theorem Arrivals.next_of_waits (h : s.waits p = true) : (t.next s s').since p = t.since p := by
  show (if s'.waits p && !s.waits p then t.now else t.since p) = t.since p
  rw [h, Bool.not_true, Bool.and_false]
  rfl

/-- Senders that stay in line keep their order. -/
theorem Line.sublist (h : Line s t ids) {ids' : List Nat} (hsub : ids'.Sublist ids)
    (hrep : s'.chan.waitQueue.Represents ids') (hfree : ids' ≠ [] → s'.chan.freeq = []) :
    Line s' (t.next s s') ids' where
  represents := hrep
  apart := hfree
  ordered := by
    refine (h.ordered.sublist hsub).imp_of_mem fun hp hq hlt => ?_
    rw [Arrivals.next_of_waits ((waits_iff h.represents).mpr (hsub.subset hp)),
      Arrivals.next_of_waits ((waits_iff h.represents).mpr (hsub.subset hq))]
    exact hlt
  past p hp := by
    rw [Arrivals.next_of_waits ((waits_iff h.represents).mpr (hsub.subset hp))]
    exact Nat.lt_succ_of_lt (h.past p (hsub.subset hp))

/-- A sender that gets in line is the last. -/
theorem Line.enter (h : Line s t ids) (hp : p ∉ ids)
    (hrep : s'.chan.waitQueue.Represents (ids ++ [p])) (hfree : s'.chan.freeq = []) :
    Line s' (t.next s s') (ids ++ [p]) := by
  have hold : ∀ q ∈ ids, (t.next s s').since q = t.since q := fun q hq =>
    Arrivals.next_of_waits ((waits_iff h.represents).mpr hq)
  have hnew : (t.next s s').since p = t.now := by
    have hs : s.waits p = false := by
      rw [Bool.eq_false_iff]
      exact fun hw => hp ((waits_iff h.represents).mp hw)
    have hs' : s'.waits p = true := (waits_iff hrep).mpr (by simp)
    show (if s'.waits p && !s.waits p then t.now else t.since p) = t.now
    rw [hs, hs']
    rfl
  refine ⟨hrep, fun _ => hfree, List.pairwise_append.mpr ⟨?_, List.pairwise_singleton .., ?_⟩, ?_⟩
  · refine h.ordered.imp_of_mem fun hq hr hlt => ?_
    rw [hold _ hq, hold _ hr]
    exact hlt
  · intro q hq r hr
    rw [List.mem_singleton.mp hr, hold q hq, hnew]
    exact h.past q hq
  · intro q hq
    show (t.next s s').since q < t.now + 1
    rcases List.mem_append.mp hq with hq | hq
    · rw [hold q hq]
      exact Nat.lt_succ_of_lt (h.past q hq)
    · rw [List.mem_singleton.mp hq, hnew]
      exact Nat.lt_succ_self _

/-- **Every step keeps the line in order.** -/
theorem Line.step (h : Line s t ids) (hi : SlotsInv N s ids live) {a : Action T}
    (hs : Channel.step N s a = some s') : ∃ ids', Line s' (t.next s s') ids' := by
  obtain ⟨ids', hrep, hline⟩ := step_line hi hs
  refine ⟨ids', ?_⟩
  cases hline with
  | stay _ hfree =>
    refine h.sublist (List.Sublist.refl _) hrep fun hne => ?_
    rw [h.apart hne] at hfree
    exact List.sublist_nil.mp hfree
  | enter p _ hp hwhy hfree =>
    refine h.enter hp hrep (hfree.trans ?_)
    rcases hwhy with hne | hnil
    · exact h.apart hne
    · exact hnil
  | leave p _ hfree =>
    refine h.sublist List.erase_sublist hrep fun hne => hfree.trans (h.apart fun hnil => hne ?_)
    rw [hnil, List.erase_nil]
  | hand p i _ _ hfree =>
    exact h.sublist (List.sublist_cons_self ..) hrep fun _ =>
      hfree.trans (h.apart (List.cons_ne_nil p _))
  | free i _ _ => exact h.sublist (List.Sublist.refl _) hrep fun hne => absurd rfl hne
  | wakeAll p _ hfree =>
    exact h.sublist (List.sublist_cons_self ..) hrep fun _ =>
      hfree.trans (h.apart (List.cons_ne_nil p _))

theorem line_reachable (hN : N ≤ 255) (h : (timed T N).Reachable (s, t)) :
    ∃ ids live, SlotsInv N s ids live ∧ Line s t ids := by
  have hline : ∃ ids, Line s t ids := by
    refine h.invariant (P := fun x => ∃ ids, Line x.1 x.2 ids)
      ⟨[], WaitQueue.new_represents, nofun, List.Pairwise.nil, nofun⟩ ?_
    rintro ⟨s, t⟩ a ⟨s', t'⟩ hr ⟨ids, hl⟩ hs
    obtain ⟨hs, ht⟩ := Machine.withHistory_step hs
    obtain rfl : t' = t.next s s' := ht
    obtain ⟨ids', live, hi⟩ := slotsInv_reachable hN hr.of_withHistory
    obtain rfl := hi.waiting.represents.unique hl.represents
    exact hl.step hi hs
  obtain ⟨ids, hl⟩ := hline
  obtain ⟨ids', live, hi⟩ := slotsInv_reachable hN h.of_withHistory
  obtain rfl := hi.waiting.represents.unique hl.represents
  exact ⟨ids', live, hi, hl⟩

/-! ## Without a receiver -/

/-- The future was told that there is no receiver. -/
def Sender.toldClosed : Sender T → Bool
  | .unlink _ .closed | .returnSlot _ .closed => true
  | _ => false

/--
A link exists during a send only, and a pending send that was popped without a slot, or that was
told there is no receiver, knows that the receiver is dropped.
-/
structure Popped (status : Nat → Option ((Waker × Nat) × Bool)) (cells : Nat → Option Nat)
    (senders : Nat → Sender T) (dropped : Bool) : Prop where
  linked : ∀ p x, status p = some x → (senders p).inFuture = true
  served : ∀ p v m w, status p = some (v, true) → senders p = .sending m w → cells p = none →
    dropped = true
  told : ∀ p, (senders p).toldClosed = true → dropped = true

section Popped

variable {status : Nat → Option ((Waker × Nat) × Bool)} {cells : Nat → Option Nat}
variable {senders : Nat → Sender T} {dropped : Bool} {st : Sender T}

theorem Popped.setSender (h : Popped status cells senders dropped)
    (hfut : status p ≠ none → st.inFuture = true)
    (hsend : ∀ m w, st = .sending m w → status p ≠ none → ∃ m' w', senders p = .sending m' w')
    (htold : st.toldClosed = true → dropped = true) :
    Popped status cells (Function.update senders p st) dropped where
  linked q x hq := by
    by_cases hqp : q = p
    · subst hqp
      rw [Function.update_self]
      exact hfut (by simp [hq])
    · rw [Function.update_of_ne hqp]
      exact h.linked q x hq
  served q v m w hq hs hc := by
    by_cases hqp : q = p
    · subst hqp
      rw [Function.update_self] at hs
      obtain ⟨m', w', hs'⟩ := hsend m w hs (by simp [hq])
      exact h.served q v m' w' hq hs' hc
    · rw [Function.update_of_ne hqp] at hs
      exact h.served q v m w hq hs hc
  told q hq := by
    by_cases hqp : q = p
    · subst hqp
      rw [Function.update_self] at hq
      exact htold hq
    · rw [Function.update_of_ne hqp] at hq
      exact h.told q hq

/-- A sender outside of its futures has no link. -/
theorem Popped.status_none (h : Popped status cells senders dropped)
    (hp : (senders p).inFuture = false) : status p = none := by
  cases hst : status p with
  | none => rfl
  | some x =>
    rw [h.linked p x hst] at hp
    cases hp

/-- A sender that is not in a send future goes on. -/
theorem Popped.setSender_of_not_inFuture (h : Popped status cells senders dropped)
    (hp : (senders p).inFuture = false) (hst : st.toldClosed = false) :
    Popped status cells (Function.update senders p st) dropped := by
  have hnone := h.status_none hp
  refine h.setSender (fun hne => absurd hnone hne) (fun _ _ _ hne => absurd hnone hne) ?_
  rw [hst]
  nofun

/-- A link is popped, and its sender gets a slot unless the receiver is gone. -/
theorem Popped.pop (h : Popped status cells senders dropped) (v : Waker × Nat) {b : Bool}
    {cells' : Nat → Option Nat} (hp : status p = some (v, b))
    (hcells : ∀ q, q ≠ p → cells' q = cells q)
    (hslot : (∀ m w, senders p ≠ .sending m w) ∨ cells' p ≠ none ∨ dropped = true) :
    Popped (Function.update status p (some (v, true))) cells' senders dropped where
  linked q x hq := by
    by_cases hqp : q = p
    · subst hqp
      exact h.linked q _ hp
    · rw [Function.update_of_ne hqp] at hq
      exact h.linked q x hq
  served q u m w hq hs hc := by
    by_cases hqp : q = p
    · subst hqp
      rcases hslot with hns | hne | hd
      · exact absurd hs (hns m w)
      · exact absurd hc hne
      · exact hd
    · rw [Function.update_of_ne hqp] at hq
      rw [hcells q hqp] at hc
      exact h.served q u m w hq hs hc
  told := h.told

/-- A future forgets its link. -/
theorem Popped.take (h : Popped status cells senders dropped) {cells' : Nat → Option Nat}
    (hcells : ∀ q, q ≠ p → cells' q = cells q) :
    Popped (Function.update status p none) cells' senders dropped where
  linked q x hq := by
    by_cases hqp : q = p
    · subst hqp
      rw [Function.update_self] at hq
      cases hq
    · rw [Function.update_of_ne hqp] at hq
      exact h.linked q x hq
  served q v m w hq hs hc := by
    by_cases hqp : q = p
    · subst hqp
      rw [Function.update_self] at hq
      cases hq
    · rw [Function.update_of_ne hqp] at hq
      rw [hcells q hqp] at hc
      exact h.served q v m w hq hs hc
  told := h.told

/-- The link of a sender that polls its future for the first time is not popped. -/
theorem Popped.insert (h : Popped status cells senders dropped) (v : Waker × Nat)
    (hfut : (senders p).inFuture = true) :
    Popped (Function.update status p (some (v, false))) cells senders dropped where
  linked q x hq := by
    by_cases hqp : q = p
    · subst hqp
      exact hfut
    · rw [Function.update_of_ne hqp] at hq
      exact h.linked q x hq
  served q u m w hq hs hc := by
    by_cases hqp : q = p
    · subst hqp
      rw [Function.update_self] at hq
      cases hq
    · rw [Function.update_of_ne hqp] at hq
      exact h.served q u m w hq hs hc
  told := h.told

end Popped

/-- Nobody is told that there is no receiver as long as there is one. -/
structure Told (s : State T) : Prop where
  popped : Popped s.chan.waitQueue.status s.chan.cells s.senders s.chan.receiverDropped
  results : ∀ k m, (k, .error (.noReceiver m)) ∈ s.results → s.chan.receiverDropped = true

/-- A step that changes nothing of it but the place of one sender. -/
theorem Told.congr (h : Told s)
    (hpopped : Popped s.chan.waitQueue.status s.chan.cells s'.senders s.chan.receiverDropped)
    (hwait : s'.chan.waitQueue = s.chan.waitQueue) (hcells : s'.chan.cells = s.chan.cells)
    (hdrop : s'.chan.receiverDropped = s.chan.receiverDropped) (hresults : s'.results = s.results) :
    Told s' where
  popped := by
    rw [hwait, hcells, hdrop]
    exact hpopped
  results k m hk := hdrop.trans (h.results k m (hresults ▸ hk))

/-- The same with a result that says something else. -/
theorem Told.ret (h : Told s) (hp : (s.senders p).inFuture = false) {m : Msg T}
    {r : Except (SendError (Msg T)) Unit}
    (hr : ∀ m', r = .error (.noReceiver m') → s.chan.receiverDropped = true) :
    Told (s.ret p m r) where
  popped := h.popped.setSender_of_not_inFuture hp rfl
  results k m' hk := by
    rcases List.mem_append.mp hk with hk | hk
    · exact h.results k m' hk
    · have := List.mem_singleton.mp hk
      exact hr m' (congrArg Prod.snd this).symm

/-- A pending send goes on without its link, or keeps waiting. -/
theorem Told.setSender (h : Told s) {m : Msg T} {polled : Option Waker} {st : Sender T}
    (hp : s.senders p = .sending m polled) (hst : st.mayWait = true)
    (htold : st.toldClosed = true → s.chan.receiverDropped = true) : Told (s.setSender p st) := by
  refine h.congr (h.popped.setSender (fun _ => Sender.inFuture_of_mayWait hst) ?_ htold) rfl rfl rfl
    rfl
  intro m' w hsend _
  exact ⟨m, polled, hp⟩

theorem Told.poll (h : Told s) (hi : SlotsInv N s ids live) {m : Msg T} {polled : Option Waker}
    (hp : s.senders p = .sending m polled) (waker : Waker) : Told (Channel.poll s p waker m) := by
  unfold Channel.poll
  cases hd : s.chan.receiverDropped with
  | true => exact h.setSender hp rfl fun _ => hd
  | false =>
    cases hlink : s.chan.waitQueue.links p with
    | some link =>
      have hst : s.chan.waitQueue.status p = some (link.val, link.isPopped) := by
        simp [WaitQueue.status, WaitQueue.statusOf, hlink]
      cases hpop : link.isPopped with
      | false =>
        have hset : Told (s.setSender p (.sending m (some waker))) := h.setSender hp rfl (by rintro ⟨⟩)
        simpa [hpop] using hset
      | true =>
        rw [hpop] at hst
        simp only [hpop, Bool.false_eq_true, if_true, if_false]
        have hnot := hi.waiting.not_mem_of_popped hst
        have htake := (hi.waiting.represents.take hnot).2
        have hclear : ∀ q, q ≠ p → Function.update s.chan.cells p none q = s.chan.cells q :=
          fun q hq => Function.update_of_ne hq ..
        cases hcell : s.chan.cells p with
        | some slot =>
          have hset : Told (s.setSender p (.unlink m (.granted slot))) := h.setSender hp rfl (by rintro ⟨⟩)
          exact ⟨htake ▸ hset.popped.take hclear, hset.results⟩
        | none =>
          -- popped with an empty cell
          have hdrop := h.popped.served p _ m polled hst hp hcell
          rw [hd] at hdrop
          cases hdrop
    | none =>
      simp only [Bool.false_eq_true, if_false]
      split
      · have hset : Told (s.setSender p (.sending m (some waker))) := h.setSender hp rfl (by rintro ⟨⟩)
        have hstatus := (hi.waiting.represents.insert_push hlink (waker, p)).2
        refine ⟨hstatus ▸ hset.popped.insert (waker, p) ?_, hset.results⟩
        rw [setSender_self]
        rfl
      · split
        · rename_i slot _
          have hset : Told (s.setSender p (.unlink m (.granted slot))) := h.setSender hp rfl (by rintro ⟨⟩)
          exact ⟨hset.popped, hset.results⟩
        · exact ⟨h.popped, h.results⟩

/-- The send future is gone. -/
theorem Told.finish (h : Told s) {ids : List Nat} (hrep : s.chan.waitQueue.Represents ids)
    (hpids : p ∉ ids) {m : Msg T} {out : Outcome}
    (hp : out = .closed → s.chan.receiverDropped = true) : Told (s.finish p m out) := by
  have htake : Popped (s.chan.waitQueue.take p).status s.chan.cells s.senders
      s.chan.receiverDropped := (hrep.take hpids).2 ▸ h.popped.take fun _ _ => rfl
  have hnone : (s.chan.waitQueue.take p).status p = none := by
    rw [(hrep.take hpids).2, Function.update_self]
  have hset : ∀ st : Sender T, st.toldClosed = false →
      Popped (s.chan.waitQueue.take p).status s.chan.cells (Function.update s.senders p st)
        s.chan.receiverDropped := by
    intro st hst
    refine htake.setSender (fun hne => absurd hnone hne) (fun _ _ _ hne => absurd hnone hne) ?_
    rw [hst]
    nofun
  cases out with
  | cancelled => exact ⟨hset .idle rfl, h.results⟩
  | granted i => exact ⟨hset (.write i m) rfl, h.results⟩
  | closed =>
    refine ⟨hset .idle rfl, fun k m' hk => ?_⟩
    rcases List.mem_append.mp hk with hk | -
    · exact h.results k m' hk
    · exact hp rfl

/-- A slot that is given back is in the cell of whoever was popped for it. -/
theorem Popped.returned {c c' : Channel (Msg T)} {senders : Nat → Sender T} {dropped : Bool}
    {woken : Option Waker} (h : Popped c.waitQueue.status c.cells senders dropped)
    (hw : Waiting c.waitQueue c.cells senders ids)
    (hret : c.returnFreeSlot N i = some (c', woken)) :
    Popped c'.waitQueue.status c'.cells senders dropped ∧
      ∃ ids', c'.waitQueue.Represents ids' ∧ ids' ⊆ ids := by
  cases ids with
  | nil =>
    obtain ⟨hwait, hcells, -⟩ := returnFreeSlot_free hw.represents hret
    rw [hwait, hcells]
    exact ⟨h, [], hw.represents, List.Subset.refl _⟩
  | cons q ids =>
    obtain ⟨hrep, hcells, -, v, hst, hstatus⟩ := returnFreeSlot_hand hw hret
    rw [hstatus, hcells]
    refine ⟨h.pop v hst (fun r hr => Function.update_of_ne hr ..) (Or.inr (Or.inl ?_)), ids, hrep,
      List.subset_cons_self q ids⟩
    simp

theorem Told.senderStep (h : Told s) (hi : SlotsInv N s ids live)
    (hs : Channel.senderStep N s p = some s') : Told s' := by
  have hrep := hi.waiting.represents
  unfold Channel.senderStep at hs
  cases hp : s.senders p with
  | absent | idle | sending m w | dropped => rw [hp] at hs; cases hs
  | tryWaitQueue m =>
    have hf : (s.senders p).inFuture = false := by rw [hp]; rfl
    simp only [hp] at hs
    split at hs <;> cases hs
    · exact h.ret hf (by rintro _ ⟨⟩)
    · exact h.congr (h.popped.setSender_of_not_inFuture hf rfl) rfl rfl rfl rfl
  | tryClosed m =>
    have hf : (s.senders p).inFuture = false := by rw [hp]; rfl
    simp only [hp] at hs
    split at hs <;> cases hs
    · rename_i hd
      exact h.ret hf fun _ _ => hd
    · exact h.congr (h.popped.setSender_of_not_inFuture hf rfl) rfl rfl rfl rfl
  | tryPop m =>
    have hf : (s.senders p).inFuture = false := by rw [hp]; rfl
    simp only [hp] at hs
    split at hs <;> cases hs
    · exact h.congr (h.popped.setSender_of_not_inFuture hf rfl) rfl rfl rfl rfl
    · exact h.ret hf (by rintro _ ⟨⟩)
  | write i m | push i m =>
    have hf : (s.senders p).inFuture = false := by rw [hp]; rfl
    simp only [hp] at hs
    split at hs <;> cases hs
    · exact h.congr (h.popped.setSender_of_not_inFuture hf rfl) rfl rfl rfl rfl
    · exact ⟨h.popped, h.results⟩
  | unlink m out =>
    have hreturn : ∀ {s : State T}, Told s → s.senders p = .unlink m out →
        Told (s.setSender p (.returnSlot m out)) := by
      intro s h hp
      refine h.congr (h.popped.setSender (fun _ => rfl) (by rintro _ _ ⟨⟩) fun ht => ?_) rfl rfl rfl rfl
      refine h.popped.told p ?_
      rw [hp]
      cases out with
      | closed => rfl
      | cancelled | granted i => cases ht
    simp only [hp] at hs
    split at hs <;> cases hs
    · rename_i link hlink
      have hst : s.chan.waitQueue.status p = some (link.val, link.isPopped) := by
        simp [WaitQueue.status, WaitQueue.statusOf, hlink]
      have hremove : Told { s with
          chan := { s.chan with waitQueue := s.chan.waitQueue.remove p } } := by
        refine ⟨(hrep.remove hst).2 ▸ h.popped.pop _ hst (fun _ _ => rfl) (Or.inl ?_), h.results⟩
        simp [hp]
      exact hreturn hremove hp
    · exact hreturn h hp
  | returnSlot m out =>
    have hpids : p ∉ ids := hi.waiting.not_mem (by rw [hp]; rfl)
    have hclosed : out = .closed → s.chan.receiverDropped = true := by
      rintro rfl
      exact h.popped.told p (by rw [hp]; rfl)
    simp only [hp] at hs
    cases hcell : s.chan.cells p with
    | none =>
      simp only [hcell, Option.some.injEq] at hs
      subst hs
      exact h.finish hrep hpids hclosed
    | some slot =>
      obtain ⟨chan, woken, -, hret, -, -⟩ := hi.returnCell hp hcell
      let c : Channel (Msg T) := { s.chan with cells := Function.update s.chan.cells p none }
      have hclear : Popped c.waitQueue.status c.cells s.senders s.chan.receiverDropped := by
        refine ⟨h.popped.linked, fun q v m' w hq hsend hc => ?_, h.popped.told⟩
        have hqp : q ≠ p := by
          rintro rfl
          rw [hp] at hsend
          cases hsend
        exact h.popped.served q v m' w hq hsend ((Function.update_of_ne hqp ..).symm.trans hc)
      obtain ⟨hpopped, ids', hrep', hsub⟩ := hclear.returned (hi.waiting.clearCell p) hret
      have hdrop : chan.receiverDropped = s.chan.receiverDropped := by
        rw [returnFreeSlot_frame hret]
      have hreturned : Told { s with chan := chan, woken := s.woken ++ woken.toList } :=
        ⟨hdrop.symm ▸ hpopped, fun k m' hk => hdrop.trans (h.results k m' hk)⟩
      simp only [hcell, hret, Option.some.injEq] at hs
      subst hs
      exact hreturned.finish hrep' (fun hin => hpids (hsub hin)) fun ho =>
        hdrop.trans (hclosed ho)
  | wake m =>
    have hf : (s.senders p).inFuture = false := by rw [hp]; rfl
    simp only [hp] at hs
    cases hs
    have hw : Told s.wakeReceiver := ⟨h.popped, h.results⟩
    exact hw.ret hf (by rintro _ ⟨⟩)
  | dropWake =>
    have hf : (s.senders p).inFuture = false := by rw [hp]; rfl
    simp only [hp] at hs
    cases hs
    exact h.congr (h.popped.setSender_of_not_inFuture hf rfl) rfl rfl rfl rfl

theorem Told.receiverStep (h : Told s) (hi : SlotsInv N s ids live)
    (hs : Channel.receiverStep N s = some s') : Told s' := by
  unfold Channel.receiverStep at hs
  cases hr : s.receiver with
  | idle | dropped => rw [hr] at hs; cases hs
  | pop cx | read i | isClosed cx | drain | drainRead i =>
    simp only [hr] at hs
    split at hs <;> cases hs <;> exact ⟨h.popped, h.results⟩
  | returnSlot i m =>
    simp only [hr] at hs
    split at hs <;> cases hs
    · rename_i chan woken hret
      have hdrop : chan.receiverDropped = s.chan.receiverDropped := by
        rw [returnFreeSlot_frame hret]
      exact ⟨hdrop.symm ▸ (h.popped.returned hi.waiting hret).1,
        fun k m' hk => hdrop.trans (h.results k m' hk)⟩
    · exact ⟨h.popped, h.results⟩
  | wakeAll =>
    have hd : s.chan.receiverDropped = true := hi.gone.trans (by rw [hr]; rfl)
    simp only [hr] at hs
    cases ids with
    | nil =>
      rw [hi.waiting.represents.pop_nil] at hs
      cases hs
      exact ⟨h.popped, h.results⟩
    | cons q ids =>
      obtain ⟨v, w', hst, hpop, -, hstatus⟩ := hi.waiting.represents.pop_cons
      rw [hpop] at hs
      cases hs
      exact ⟨hstatus ▸ h.popped.pop v hst (fun _ _ => rfl) (Or.inr (Or.inr hd)), h.results⟩

/-- **Every step keeps the promise.** -/
theorem Told.step (h : Told s) (hi : SlotsInv N s ids live) {a : Action T}
    (hs : Channel.step N s a = some s') : Told s' := by
  cases a with
  | trySend q val | send q val =>
    simp only [Channel.step] at hs
    split at hs <;> cases hs
    rename_i hq
    exact h.congr (h.popped.setSender_of_not_inFuture (by rw [hq]; rfl) rfl) rfl rfl rfl rfl
  | poll q waker =>
    simp only [Channel.step] at hs
    split at hs <;> cases hs
    rename_i hq
    exact h.poll hi hq waker
  | cancel q =>
    simp only [Channel.step] at hs
    split at hs <;> cases hs
    rename_i hq
    exact h.setSender hq rfl (by rintro ⟨⟩)
  | clone q r =>
    simp only [Channel.step] at hs
    split at hs <;> cases hs
    rename_i hr
    exact h.congr (h.popped.setSender_of_not_inFuture (by rw [hr]; rfl) rfl) rfl rfl rfl rfl
  | dropSender q =>
    simp only [Channel.step] at hs
    split at hs
    · rename_i hq
      have hset : ∀ st : Sender T, st.toldClosed = false → Told (s.setSender q st) := fun st hst =>
        h.congr (h.popped.setSender_of_not_inFuture (by rw [hq]; rfl) hst) rfl rfl rfl rfl
      split at hs <;> cases hs
      · exact ⟨h.popped, h.results⟩
      · exact ⟨(hset .dropWake rfl).popped, h.results⟩
      · exact ⟨(hset .dropped rfl).popped, h.results⟩
    · cases hs
  | sender q => exact h.senderStep hi hs
  | tryRecv =>
    simp only [Channel.step] at hs
    split at hs <;> cases hs
    exact ⟨h.popped, h.results⟩
  | recv waker =>
    simp only [Channel.step] at hs
    split at hs <;> cases hs
    have hreg : Told (s.register waker) := by
      unfold State.register
      split
      · exact h
      · exact ⟨h.popped, h.results⟩
    exact ⟨hreg.popped, hreg.results⟩
  | dropReceiver =>
    simp only [Channel.step] at hs
    split at hs <;> cases hs
    exact ⟨⟨h.popped.linked, fun _ _ _ _ _ _ _ => rfl, fun _ _ => rfl⟩, fun _ _ _ => rfl⟩
  | receiver => exact h.receiverStep hi hs

theorem told_init : Told (machine T N).init := by
  refine ⟨⟨nofun, nofun, fun p hp => ?_⟩, nofun⟩
  have hp : (if p = 0 then Sender.idle else Sender.absent : Sender T).toldClosed = true := hp
  split at hp <;> cases hp

theorem told_reachable (hN : N ≤ 255) (h : (machine T N).Reachable s) : Told s :=
  h.invariant (P := Told) told_init fun _ _ _ hr ht hs =>
    let ⟨_, _, hi⟩ := slotsInv_reachable hN hr
    ht.step hi hs

/-! ## Cancelled sends -/

/-- The action moves the sender. -/
def Action.moves : Action T → Nat → Bool
  | .trySend p _, q | .send p _, q | .poll p _, q | .cancel p, q | .dropSender p, q | .sender p, q
  | .clone _ p, q => p == q
  | .tryRecv, _ | .recv _, _ | .dropReceiver, _ | .receiver, _ => false

/-- The index in a cell stays there while a slot is given back to somebody else. -/
theorem returnFreeSlot_cell {c c' : Channel (Msg T)} {senders : Nat → Sender T} {j : Nat}
    {woken : Option Waker} (hw : Waiting c.waitQueue c.cells senders ids)
    (hret : c.returnFreeSlot N j = some (c', woken)) (hcell : c.cells p = some i) :
    c'.cells p = some i := by
  cases ids with
  | nil => rw [(returnFreeSlot_free hw.represents hret).2.1, hcell]
  | cons q ids =>
    have hqp : p ≠ q := by
      rintro rfl
      rw [hw.cell_none List.mem_cons_self] at hcell
      cases hcell
    rw [(returnFreeSlot_hand hw hret).2.1, Function.update_of_ne hqp, hcell]

theorem poll_stays {q : Nat} (hqp : p ≠ q) (waker : Waker) (m : Msg T) :
    (Channel.poll s q waker m).senders p = s.senders p ∧
      (Channel.poll s q waker m).chan.cells p = s.chan.cells p := by
  have hset : ∀ st : Sender T, Function.update s.senders q st p = s.senders p :=
    fun st => Function.update_of_ne hqp ..
  unfold Channel.poll
  split
  · exact ⟨hset _, rfl⟩
  · split
    · split
      · exact ⟨hset _, Function.update_of_ne hqp ..⟩
      · exact ⟨hset _, rfl⟩
    · split
      · exact ⟨hset _, rfl⟩
      · split
        · exact ⟨hset _, rfl⟩
        · exact ⟨rfl, rfl⟩

theorem finish_senders {q : Nat} (hqp : p ≠ q) (m : Msg T) (out : Outcome) :
    (s.finish q m out).senders p = s.senders p := by
  cases out <;> exact Function.update_of_ne hqp ..

theorem senderStep_stays (hi : SlotsInv N s ids live) {q : Nat} (hqp : p ≠ q)
    (hs : Channel.senderStep N s q = some s') :
    s'.senders p = s.senders p ∧ (s.chan.cells p = some i → s'.chan.cells p = some i) := by
  have hset : ∀ st : Sender T, Function.update s.senders q st p = s.senders p :=
    fun st => Function.update_of_ne hqp ..
  unfold Channel.senderStep at hs
  cases hq : s.senders q with
  | absent | idle | sending m w | dropped => rw [hq] at hs; cases hs
  | tryWaitQueue m | tryClosed m | tryPop m | unlink m out =>
    simp only [hq] at hs
    split at hs <;> cases hs <;> exact ⟨hset _, id⟩
  | write j m | push j m =>
    simp only [hq] at hs
    split at hs <;> cases hs
    · exact ⟨hset _, id⟩
    · exact ⟨rfl, id⟩
  | wake m | dropWake =>
    simp only [hq] at hs
    cases hs
    exact ⟨hset _, id⟩
  | returnSlot m out =>
    simp only [hq] at hs
    cases hcell : s.chan.cells q with
    | none =>
      rw [hcell] at hs
      cases hs
      exact ⟨finish_senders hqp m out, fun hp => by rwa [finish_cells]⟩
    | some slot =>
      let c : Channel (Msg T) := { s.chan with cells := Function.update s.chan.cells q none }
      obtain ⟨chan, woken, -, hret, -, -⟩ := hi.returnCell hq hcell
      simp only [hcell, hret, Option.some.injEq] at hs
      subst hs
      refine ⟨finish_senders hqp m out, fun hp => ?_⟩
      rw [finish_cells]
      refine returnFreeSlot_cell (c := c) (hi.waiting.clearCell q) hret ?_
      exact (Function.update_of_ne hqp ..).trans hp

/-- **A sender stays where it is, with what is in its cell**, while the others move. -/
theorem step_stays (hi : SlotsInv N s ids live) {a : Action T} (ha : a.moves p = false)
    (hs : Channel.step N s a = some s') :
    s'.senders p = s.senders p ∧ (s.chan.cells p = some i → s'.chan.cells p = some i) := by
  have hne : ∀ {q : Nat}, (q == p) = false → p ≠ q := fun hq hpq => by simp [hpq] at hq
  have hset : ∀ {q : Nat} (st : Sender T), (q == p) = false →
      Function.update s.senders q st p = s.senders p :=
    fun st hq => Function.update_of_ne (hne hq) ..
  cases a with
  | trySend q val | send q val | cancel q | clone r q =>
    simp only [Channel.step] at hs
    split at hs <;> cases hs
    exact ⟨hset _ ha, id⟩
  | poll q waker =>
    simp only [Channel.step] at hs
    split at hs <;> cases hs
    obtain ⟨hsenders, hcells⟩ := poll_stays (hne ha) waker _
    exact ⟨hsenders, fun hp => hcells.trans hp⟩
  | dropSender q =>
    simp only [Channel.step] at hs
    split at hs
    · split at hs <;> cases hs
      · exact ⟨rfl, id⟩
      · exact ⟨hset _ ha, id⟩
      · exact ⟨hset _ ha, id⟩
    · cases hs
  | sender q => exact senderStep_stays hi (hne ha) hs
  | tryRecv | dropReceiver =>
    simp only [Channel.step] at hs
    split at hs <;> cases hs
    exact ⟨rfl, id⟩
  | recv waker =>
    simp only [Channel.step] at hs
    split at hs <;> cases hs
    have hreg : (s.register waker).senders = s.senders ∧
        (s.register waker).chan.cells = s.chan.cells := by
      unfold State.register
      split <;> exact ⟨rfl, rfl⟩
    exact ⟨congrFun hreg.1 p, fun hp => (congrFun hreg.2 p).trans hp⟩
  | receiver =>
    simp only [Channel.step, Channel.receiverStep] at hs
    cases hr : s.receiver with
    | idle | dropped => rw [hr] at hs; cases hs
    | pop cx | read j | isClosed cx | drain | drainRead j | wakeAll =>
      simp only [hr] at hs
      split at hs <;> cases hs <;> exact ⟨rfl, id⟩
    | returnSlot j m =>
      simp only [hr] at hs
      split at hs <;> cases hs
      · rename_i hret
        exact ⟨rfl, returnFreeSlot_cell hi.waiting hret⟩
      · exact ⟨rfl, id⟩

/-- A cancelled send keeps its slot until its dropper gives it back. -/
theorem step_cancelled (hi : SlotsInv N s ids live) {a : Action T}
    (hs : Channel.step N s a = some s') (hp : s.cancelled p = true) (hcell : s.chan.cells p = some i) :
    (s'.cancelled p = true ∧ s'.chan.cells p = some i) ∨ (a = .sender p ∧ s.frees a = some i) := by
  cases ha : a.moves p with
  | false =>
    obtain ⟨hsenders, hcells⟩ := step_stays hi ha hs
    refine Or.inl ⟨?_, hcells hcell⟩
    unfold State.cancelled at hp ⊢
    rwa [hsenders]
  | true =>
    -- the only action that moves it is its own next critical section
    have hown : a = .sender p := by
      unfold State.cancelled at hp
      cases a with
      | trySend q val | send q val | poll q waker | cancel q | dropSender q | clone r q =>
        obtain rfl : q = p := by simpa [Action.moves] using ha
        simp only [Channel.step] at hs
        split at hs
        · rename_i hq
          simp [hq] at hp
        · cases hs
      | sender q => rw [show q = p by simpa [Action.moves] using ha]
      | tryRecv | recv waker | dropReceiver | receiver => cases ha
    subst hown
    have hs : Channel.senderStep N s p = some s' := hs
    unfold State.cancelled at hp
    split at hp
    · rename_i m hst
      simp only [Channel.senderStep, hst] at hs
      refine Or.inl ?_
      split at hs <;> cases hs <;>
      · refine ⟨?_, hcell⟩
        unfold State.cancelled
        simp
    · rename_i m hst
      exact Or.inr ⟨rfl, by simp only [State.frees, hst, hcell]⟩
    · cases hp

/-- The dropper of a cancelled send runs to its end. -/
theorem dropper_runs (hi : SlotsInv N s ids live) (m : Msg T) :
    (s.senders p = .unlink m .cancelled →
      ∃ s', Channel.step N s (.sender p) = some s' ∧ s'.senders p = .returnSlot m .cancelled) ∧
    (s.senders p = .returnSlot m .cancelled →
      ∃ s', Channel.step N s (.sender p) = some s' ∧ s'.senders p = .idle ∧
        s'.chan.cells p = none) := by
  constructor
  · intro hp
    simp only [Channel.step, Channel.senderStep, hp]
    split
    · exact ⟨_, rfl, Function.update_self ..⟩
    · exact ⟨_, rfl, Function.update_self ..⟩
  · intro hp
    simp only [Channel.step, Channel.senderStep, hp]
    cases hcell : s.chan.cells p with
    | none => exact ⟨_, rfl, Function.update_self .., hcell⟩
    | some slot =>
      obtain ⟨chan, woken, -, hret, hnone, -⟩ := hi.returnCell hp hcell
      simp only [hret]
      exact ⟨_, rfl, Function.update_self .., hnone⟩

/-! ## `try_send` -/

theorem poll_results {m : Msg T} {waker : Waker} :
    (Channel.poll s p waker m).results = s.results := by
  unfold Channel.poll
  split
  · rfl
  · split
    · split <;> rfl
    · split
      · rfl
      · split <;> rfl

theorem finish_results (m m' : Msg T) (out : Outcome) (op : Nat) :
    (s.finish p m out).results ≠ s.results ++ [(op, .error (.full m'))] := by
  cases out <;> simp [State.finish, State.ret, State.setSender]

/-- `Full` is the answer to a line or to an empty `freeq`. -/
theorem step_full {a : Action T} (hs : Channel.step N s a = some s') {op : Nat} {m : Msg T}
    (hfull : s'.results = s.results ++ [(op, .error (.full m))]) :
    s.chan.waitQueue.isEmpty = false ∨ s.chan.freeq = [] := by
  -- every step but two kinds leaves the results as they are
  have same : s'.results ≠ s.results := by
    rw [hfull]
    simp
  cases a with
  | trySend q val | send q val | cancel q | clone r q | tryRecv | dropReceiver =>
    simp only [Channel.step] at hs
    split at hs <;> cases hs
    exact absurd rfl same
  | poll q waker =>
    simp only [Channel.step] at hs
    split at hs <;> cases hs
    exact absurd poll_results same
  | dropSender q =>
    simp only [Channel.step] at hs
    split at hs
    · split at hs <;> cases hs <;> exact absurd rfl same
    · cases hs
  | recv waker =>
    simp only [Channel.step] at hs
    split at hs <;> cases hs
    refine absurd ?_ same
    show (s.register waker).results = s.results
    unfold State.register
    split <;> rfl
  | receiver =>
    simp only [Channel.step, Channel.receiverStep] at hs
    split at hs
    all_goals first
      | cases hs
      | (split at hs <;> cases hs <;> exact absurd rfl same)
  | sender q =>
    simp only [Channel.step, Channel.senderStep] at hs
    cases hq : s.senders q with
    | absent | idle | sending m' w | dropped => rw [hq] at hs; cases hs
    | tryWaitQueue m' =>
      simp only [hq] at hs
      split at hs <;> cases hs
      · rename_i hne
        exact Or.inl (by simpa using hne)
      · exact absurd rfl same
    | tryPop m' =>
      simp only [hq] at hs
      split at hs <;> cases hs
      · exact absurd rfl same
      · exact Or.inr ‹_›
    | tryClosed m' =>
      simp only [hq] at hs
      split at hs <;> cases hs
      · -- here the error is another one
        simp [State.ret] at hfull
      · exact absurd rfl same
    | write j m' | push j m' | unlink m' out =>
      simp only [hq] at hs
      split at hs <;> cases hs <;> exact absurd rfl same
    | wake m' =>
      simp only [hq] at hs
      cases hs
      simp [State.ret, State.wakeReceiver] at hfull
    | dropWake =>
      simp only [hq] at hs
      cases hs
      exact absurd rfl same
    | returnSlot m' out =>
      simp only [hq] at hs
      split at hs
      · split at hs <;> cases hs
        · exact absurd hfull (finish_results _ _ _ _)
        · exact absurd rfl same
      · cases hs
        exact absurd hfull (finish_results _ _ _ _)

/-! ## Service -/

/-- What the step `a` from `s` to `s'` does for those in line since `t`. -/
structure Serves (s : State T) (t : Arrivals) (a : Action T) (s' : State T) : Prop where
  /--
  A slot that is freed goes to whoever has been in line for the longest time; a cancelled send is
  in line until the critical section of its dropper that takes its link out.
  -/
  handed : ∀ i p, s.frees a = some i → s.waits p = true →
    ∃ q, s.waits q = true ∧ (∀ r, s.waits r = true → r ≠ q → t.since q < t.since r) ∧
      s'.chan.cells q = some i ∧ s'.waits q = false
  /-- A slot that is freed goes to `freeq` if nobody is in line. -/
  freed : ∀ i, s.frees a = some i → (∀ p, s.waits p = false) →
    s'.chan.freeq = s.chan.freeq ++ [i]
  /-- A slot that was handed to a send that is then cancelled is freed again by its dropper. -/
  cancelled : ∀ p i, s.cancelled p = true → s.chan.cells p = some i →
    (s'.cancelled p = true ∧ s'.chan.cells p = some i) ∨ (a = .sender p ∧ s.frees a = some i)
  /-- `try_send` takes a slot only if nobody is in line. -/
  trySend : ∀ p m i, a = .sender p → s.senders p = .tryPop m → s'.senders p = .write i m →
    ∀ q, s.waits q = false
  /-- `try_send` returns `Full` only if there is no free slot. -/
  full : ∀ op m, s'.results = s.results ++ [(op, .error (.full m))] → s.chan.freeq = []

theorem Line.serves (h : Line s t ids) (hi : SlotsInv N s ids live) {a : Action T}
    (hs : Channel.step N s a = some s') : Serves s t a s' := by
  have hnone : ∀ p, s.waits p = false ↔ p ∉ ids := fun p => by
    rw [← waits_iff h.represents, Bool.not_eq_true]
  obtain ⟨ids', hrep, hline⟩ := step_line hi hs
  refine ⟨fun i p hf hp => ?_, fun i hf hempty => ?_,
    fun p i hp hcell => step_cancelled hi hs hp hcell, fun p m i ha hp hw q => ?_,
    fun op m hfull => ?_⟩
  · cases hline with
    | hand q j hf' hcell _ =>
      obtain rfl : j = i := Option.some.inj (hf'.symm.trans hf)
      obtain ⟨hq, hnd⟩ := List.nodup_cons.mp h.represents.nodup
      refine ⟨q, (waits_iff h.represents).mpr List.mem_cons_self, fun r hr hrq => ?_, hcell, ?_⟩
      · have hr' := (waits_iff h.represents).mp hr
        exact (List.pairwise_cons.mp h.ordered).1 r ((List.mem_cons.mp hr').resolve_left hrq)
      · rw [Bool.eq_false_iff]
        exact fun hw => hq ((waits_iff hrep).mp hw)
    | free j _ _ => exact absurd ((waits_iff h.represents).mp hp) List.not_mem_nil
    | stay hf' _ | enter q hf' _ _ _ | leave q hf' _ | wakeAll q hf' _ =>
      rw [hf] at hf'
      cases hf'
  · cases hline with
    | free j hf' hfree =>
      obtain rfl : j = i := Option.some.inj (hf'.symm.trans hf)
      exact hfree
    | hand q j _ _ _ => exact absurd List.mem_cons_self ((hnone q).mp (hempty q))
    | stay hf' _ | enter q hf' _ _ _ | leave q hf' _ | wakeAll q hf' _ =>
      rw [hf] at hf'
      cases hf'
  · -- there was a free slot, so nobody was in line
    subst ha
    have hne : s.chan.freeq ≠ [] := by
      intro hnil
      have hs : Channel.senderStep N s p = some s' := hs
      simp only [Channel.senderStep, hp, hnil, Option.some.injEq] at hs
      subst hs
      have hidle : (s.ret p m (.error (.full m))).senders p = .idle := Function.update_self ..
      rw [hidle] at hw
      cases hw
    rw [hnone]
    intro hq
    exact hne (h.apart (List.ne_nil_of_mem hq))
  · rcases step_full hs hfull with hne | hnil
    · refine h.apart fun hids => ?_
      rw [h.represents.isEmpty_iff.mpr hids] at hne
      cases hne
    · exact hnil

/--
**Waiting senders are served fairly.** Whatever the senders, the droppers of cancelled sends and the
receiver do: there is no free slot while the wait queue is not empty, every step serves the line,
the dropper of a cancelled send runs to its end, and `NoReceiver` is never returned before the
receiver is dropped.
-/
theorem waiting_senders_served (hN : N ≤ 255) (h : (timed T N).Reachable (s, t)) :
    (s.chan.waitQueue.isEmpty = false → s.chan.freeq = []) ∧
    (∀ a s', (machine T N).step s a = some s' → Serves s t a s') ∧
    (∀ p m, (s.senders p = .unlink m .cancelled →
        ∃ s', (machine T N).step s (.sender p) = some s' ∧
          s'.senders p = .returnSlot m .cancelled) ∧
      (s.senders p = .returnSlot m .cancelled →
        ∃ s', (machine T N).step s (.sender p) = some s' ∧ s'.senders p = .idle ∧
          s'.chan.cells p = none)) ∧
    ∀ op m, (op, .error (.noReceiver m)) ∈ s.results → s.receiver.gone = true := by
  obtain ⟨ids, live, hi, hl⟩ := line_reachable hN h
  refine ⟨fun hne => hl.apart fun hids => ?_, fun a s' hs => hl.serves hi hs,
    fun p m => dropper_runs hi m, fun op m hr => ?_⟩
  · rw [hl.represents.isEmpty_iff.mpr hids] at hne
    cases hne
  · exact hi.gone.symm.trans ((told_reachable hN h.of_withHistory).results op m hr)

/-- Two senders wait for the only slot, and the first is cancelled after it was handed over. -/
def cancelServed : List (Action Nat) :=
  [.clone 0 1, .clone 0 2, .trySend 0 5] ++ List.replicate 6 (.sender 0) ++
    [.send 1 7, .poll 1 3, .send 2 8, .poll 2 4, .tryRecv] ++ List.replicate 3 .receiver ++
    [.cancel 1, .sender 1]

theorem waiting_senders_served_run :
    ∃ s t, (timed Nat 1).exec (timed Nat 1).init cancelServed = some (s, t) ∧
      (s.cancelled 1, s.frees (.sender 1), s.waits 2) = (true, some 0, true) ∧
      (t.since 1, t.since 2) = (10, 12) ∧
      s.chan.freeq = [] ∧
      ∃ s', (machine Nat 1).step s (.sender 1) = some s' ∧ Serves s t (.sender 1) s' := by
  have hrun : ((timed Nat 1).exec (timed Nat 1).init cancelServed).map (fun x =>
      ((x.1.cancelled 1, x.1.frees (.sender 1), x.1.waits 2), (x.2.since 1, x.2.since 2),
        x.1.chan.waitQueue.isEmpty, ((machine Nat 1).step x.1 (.sender 1)).isSome)) =
      some ((true, some 0, true), (10, 12), false, true) := by decide +kernel
  obtain ⟨⟨s, t⟩, hs, hobs⟩ := Option.map_eq_some_iff.mp hrun
  obtain ⟨hsent, hrest⟩ := Prod.mk.inj hobs
  obtain ⟨hsince, hrest⟩ := Prod.mk.inj hrest
  obtain ⟨hne, hstep⟩ := Prod.mk.inj hrest
  obtain ⟨hapart, hserves, -, -⟩ :=
    waiting_senders_served (N := 1) (by decide) (Machine.reachable_iff_exec.mpr ⟨cancelServed, hs⟩)
  obtain ⟨s', hs'⟩ := Option.isSome_iff_exists.mp hstep
  exact ⟨s, t, hs, hsent, hsince, hapart hne, s', hs', hserves _ _ hs'⟩

end Rticx.AsyncRt.Channel
