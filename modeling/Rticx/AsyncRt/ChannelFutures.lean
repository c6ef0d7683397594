import Rticx.AsyncRt.WaitQueueSequence
import Rticx.AsyncRt.ChannelWaiters

/-!
# The send futures behind the wait queue

The links and the slot cells are locals of the send futures, and the wait queue reaches them by
pointer. What a poll returned and who was popped is not in the memory: the machine notes it down.
-/

namespace Rticx.AsyncRt.Channel

open Lib

variable {T : Type} {N : Nat} {s s' : State T} {ids ids' live : List Nat} {p q i : Nat}
variable {a : Action T}

/-! ## Events -/

/-- `return_free_slot` put a slot into the cell of the send future. -/
def State.hands (s s' : State T) (p : Nat) : Bool :=
  (s.chan.cells p).isNone && (s'.chan.cells p).isSome

/-- `Receiver::drop` pops the link of the send future. -/
def State.dismisses (s : State T) (a : Action T) (p : Nat) : Bool :=
  match a, s.receiver, s.chan.waitQueue.pop with
  | .receiver, .wakeAll, (some (_, freeSlotPtr), _) => freeSlotPtr == p
  | _, _, _ => false

/-- A poll of the send future returned `Pending`. -/
def Action.pends (a : Action T) (s' : State T) (p : Nat) : Bool :=
  match a, s'.senders p with
  | .poll q _, .sending _ _ => q == p
  | _, _ => false

/--
The clock, when the first poll of the current send future of a sender returned `Pending`, and
whether it was handed a slot or popped by the drop of the receiver.
-/
structure Futures where
  now : Nat
  first : Nat → Option Nat
  served : Nat → Bool

/-- A step takes one tick, and what is known of a send future goes away with it. -/
def Futures.next (n : Futures) (s : State T) (a : Action T) (s' : State T) : Futures where
  now := n.now + 1
  first p :=
    if (s'.senders p).inFuture then
      if a.pends s' p then (n.first p).or (some n.now) else n.first p
    else none
  served p := (s'.senders p).inFuture && (n.served p || s.hands s' p || s.dismisses a p)

/-- The channel with its parties and these notes. -/
def noted (T : Type) (N : Nat) : Machine (State T × Futures) (Action T) :=
  (machine T N).withEvents { now := 0, first := fun _ => none, served := fun _ => false }
    Futures.next

/-! ## What a step does to a link -/

/-- What a step that polls nothing does to the link and the cell of a send future. -/
inductive LinkStep (s : State T) (a : Action T) (s' : State T) (p : Nat) : Prop where
  | same : s'.chan.waitQueue.status p = s.chan.waitQueue.status p → s.hands s' p = false →
    s.dismisses a p = false → LinkStep s a s' p
  | popped (v : Waker × Nat) : s.chan.waitQueue.status p = some (v, false) →
    s'.chan.waitQueue.status p = some (v, true) → (s.hands s' p || s.dismisses a p) = true →
    LinkStep s a s' p
  /-- the dropper -/
  | unlinked (v : Waker × Nat) (b : Bool) : s.chan.waitQueue.status p = some (v, b) →
    s'.chan.waitQueue.status p = some (v, true) → (∀ m w, s'.senders p ≠ .sending m w) →
    LinkStep s a s' p
  /-- the future is gone -/
  | forgotten : s'.chan.waitQueue.status p = none → (s'.senders p).inFuture = false →
    LinkStep s a s' p

theorem hands_of_eq (h : s'.chan.cells p = s.chan.cells p) : s.hands s' p = false := by
  unfold State.hands
  rw [h]
  cases s.chan.cells p <;> rfl

theorem dismisses_of_ne (ha : a ≠ .receiver) (p : Nat) : s.dismisses a p = false := by
  cases a with
  | receiver => exact absurd rfl ha
  | _ => rfl

/-- Nothing happens to the link. -/
theorem LinkStep.of_eq (hw : s'.chan.waitQueue = s.chan.waitQueue)
    (hcells : s'.chan.cells = s.chan.cells) (hd : s.dismisses a p = false) : LinkStep s a s' p :=
  .same (by rw [hw]) (hands_of_eq (by rw [hcells])) hd

/-- What `return_free_slot` does to a link and a cell. -/
theorem returnFreeSlot_link {c c' : Channel (Msg T)} {senders : Nat → Sender T}
    {woken : Option Waker} (hw : Waiting c.waitQueue c.cells senders ids)
    (hret : c.returnFreeSlot N i = some (c', woken)) (p : Nat) :
    (c'.waitQueue.status p = c.waitQueue.status p ∧ c'.cells p = c.cells p) ∨
      ∃ v, c.waitQueue.status p = some (v, false) ∧ c'.waitQueue.status p = some (v, true) ∧
        c.cells p = none ∧ c'.cells p = some i := by
  cases ids with
  | nil =>
    obtain ⟨hwait, hcells, -⟩ := returnFreeSlot_free hw.represents hret
    exact Or.inl ⟨by rw [hwait], by rw [hcells]⟩
  | cons q ids =>
    obtain ⟨-, hcells, -, v, hst, hstatus⟩ := returnFreeSlot_hand hw hret
    rw [hcells, hstatus]
    by_cases hpq : p = q
    · subst hpq
      refine Or.inr ⟨v, hst, Function.update_self .., ?_, Function.update_self ..⟩
      exact hw.cell_none List.mem_cons_self
    · exact Or.inl ⟨Function.update_of_ne hpq .., Function.update_of_ne hpq ..⟩

/-- A future that is gone is none of the others. -/
theorem finish_status (hrep : s.chan.waitQueue.Represents ids) (hq : q ∉ ids) (m : Msg T)
    (out : Outcome) :
    (s.finish q m out).chan.waitQueue.status = Function.update s.chan.waitQueue.status q none := by
  cases out <;> exact (hrep.take hq).2

theorem finish_not_inFuture (m : Msg T) (out : Outcome) :
    ((s.finish q m out).senders q).inFuture = false := by
  have hself : ∀ st : Sender T, Function.update s.senders q st q = st :=
    fun st => Function.update_self ..
  cases out with
  | cancelled => exact congrArg Sender.inFuture (hself .idle)
  | closed => exact congrArg Sender.inFuture (hself .idle)
  | granted j => exact congrArg Sender.inFuture (hself (.write j m))

theorem senderStep_link (hi : SlotsInv N s ids live) (hs : Channel.senderStep N s q = some s')
    (p : Nat) : LinkStep s (.sender q) s' p := by
  have hrep := hi.waiting.represents
  have hd : s.dismisses (.sender q) p = false := rfl
  unfold Channel.senderStep at hs
  cases hq : s.senders q with
  | absent | idle | sending m w | dropped => rw [hq] at hs; cases hs
  | tryWaitQueue m | tryClosed m | tryPop m | write j m | push j m =>
    simp only [hq] at hs
    split at hs <;> cases hs <;> exact .of_eq rfl rfl hd
  | wake m | dropWake =>
    simp only [hq] at hs
    cases hs
    exact .of_eq rfl rfl hd
  | unlink m out =>
    simp only [hq] at hs
    split at hs <;> cases hs
    · rename_i link hlink
      have hst : s.chan.waitQueue.status q = some (link.val, link.isPopped) := by
        simp [WaitQueue.status, WaitQueue.statusOf, hlink]
      have hremove := (hrep.remove hst).2
      by_cases hpq : p = q
      · subst hpq
        refine .unlinked link.val link.isPopped hst ?_ fun m' w hp => ?_
        · show (s.chan.waitQueue.remove p).status p = _
          rw [hremove, Function.update_self]
        · have hself : (s.setSender p (.returnSlot m out)).senders p = .sending m' w := hp
          rw [setSender_self] at hself
          cases hself
      · refine .same ?_ (hands_of_eq rfl) hd
        show (s.chan.waitQueue.remove q).status p = _
        rw [hremove, Function.update_of_ne hpq]
    · exact .of_eq rfl rfl hd
  | returnSlot m out =>
    have hqids : q ∉ ids := hi.waiting.not_mem (by rw [hq]; rfl)
    simp only [hq] at hs
    cases hcell : s.chan.cells q with
    | none =>
      rw [hcell] at hs
      cases hs
      have hstatus := finish_status hrep hqids m out
      by_cases hpq : p = q
      · subst hpq
        exact .forgotten (by rw [hstatus, Function.update_self]) (finish_not_inFuture m out)
      · refine .same (by rw [hstatus, Function.update_of_ne hpq]) (hands_of_eq ?_) hd
        rw [finish_cells]
    | some slot =>
      obtain ⟨chan, woken, -, hret, -, -⟩ := hi.returnCell hq hcell
      let c : Channel (Msg T) := { s.chan with cells := Function.update s.chan.cells q none }
      have hclear : Waiting c.waitQueue c.cells s.senders ids := hi.waiting.clearCell q
      obtain ⟨ids', hrep', hsub⟩ : ∃ ids', chan.waitQueue.Represents ids' ∧ ids' ⊆ ids := by
        cases ids with
        | nil =>
          have hwait := (returnFreeSlot_free (c := c) hclear.represents hret).1
          exact ⟨[], hwait ▸ hrep, List.Subset.refl _⟩
        | cons r ids =>
          exact ⟨ids, (returnFreeSlot_hand (c := c) hclear hret).1, List.subset_cons_self r ids⟩
      simp only [hcell, hret, Option.some.injEq] at hs
      subst hs
      have hstatus := finish_status
        (s := { s with chan := chan, woken := s.woken ++ woken.toList }) hrep'
        (fun hin => hqids (hsub hin)) m out
      by_cases hpq : p = q
      · subst hpq
        exact .forgotten (by rw [hstatus, Function.update_self]) (finish_not_inFuture m out)
      · -- the cell of another future, which is emptied nowhere here
        have hcells : c.cells p = s.chan.cells p := Function.update_of_ne hpq ..
        rcases returnFreeSlot_link (c := c) hclear hret p with ⟨hst, hc⟩ | ⟨v, hst, hst', hc, hc'⟩
        · refine .same ?_ (hands_of_eq ?_) hd
          · rw [hstatus, Function.update_of_ne hpq]
            exact hst
          · rw [finish_cells]
            exact hc.trans hcells
        · refine .popped v hst ?_ ?_
          · rw [hstatus, Function.update_of_ne hpq]
            exact hst'
          · unfold State.hands
            rw [finish_cells, ← hcells, hc, show chan.cells p = some slot from hc']
            rfl

theorem receiverStep_link (hi : SlotsInv N s ids live) (hs : Channel.receiverStep N s = some s')
    (p : Nat) : LinkStep s .receiver s' p := by
  have hd : (∀ w, s.receiver = w → w ≠ .wakeAll) → s.dismisses .receiver p = false := by
    intro h
    unfold State.dismisses
    split
    · rename_i hr _
      exact absurd rfl (h _ hr)
    · rfl
  unfold Channel.receiverStep at hs
  cases hr : s.receiver with
  | idle | dropped => rw [hr] at hs; cases hs
  | pop cx | read j | isClosed cx | drain | drainRead j =>
    have hd := hd (by rw [hr]; rintro _ rfl ⟨⟩)
    simp only [hr] at hs
    split at hs <;> cases hs <;> exact .of_eq rfl rfl hd
  | returnSlot j m =>
    have hd := hd (by rw [hr]; rintro _ rfl ⟨⟩)
    obtain ⟨chan, woken, -, hret, -⟩ := hi.returnRead hr
    simp only [hr, hret, Option.some.injEq] at hs
    subst hs
    rcases returnFreeSlot_link hi.waiting hret p with ⟨hst, hc⟩ | ⟨v, hst, hst', hc, hc'⟩
    · exact .same hst (hands_of_eq hc) hd
    · refine .popped v hst hst' ?_
      unfold State.hands
      rw [hc, show chan.cells p = some j from hc']
      rfl
  | wakeAll =>
    simp only [hr] at hs
    cases ids with
    | nil =>
      have hpop := hi.waiting.represents.pop_nil
      rw [hpop] at hs
      cases hs
      refine .of_eq rfl rfl ?_
      simp only [State.dismisses, hr, hpop]
    | cons q ids =>
      obtain ⟨⟨waker, r⟩, w', hst, hpop, -, hstatus⟩ := hi.waiting.represents.pop_cons
      obtain rfl : r = q := hi.waiting.own q (waker, r) false hst
      have hdis : s.dismisses .receiver p = (r == p) := by simp only [State.dismisses, hr, hpop]
      rw [hpop] at hs
      cases hs
      by_cases hpr : p = r
      · subst hpr
        refine .popped (waker, p) hst ?_ ?_
        · show w'.status p = _
          rw [hstatus, Function.update_self]
        · rw [hdis]
          simp
      · refine .same ?_ (hands_of_eq rfl) ?_
        · show w'.status p = _
          rw [hstatus, Function.update_of_ne hpr]
        · rw [hdis]
          simpa using Ne.symm hpr

/-- **A link changes in these ways only**, unless its future is polled. -/
theorem step_link (hi : SlotsInv N s ids live) (ha : ∀ q waker, a ≠ .poll q waker)
    (hs : Channel.step N s a = some s') (p : Nat) : LinkStep s a s' p := by
  cases a with
  | poll q waker => exact absurd rfl (ha q waker)
  | trySend q val | send q val | cancel q | clone r q | tryRecv | dropReceiver =>
    simp only [Channel.step] at hs
    split at hs <;> cases hs
    exact .of_eq rfl rfl rfl
  | dropSender q =>
    simp only [Channel.step] at hs
    split at hs
    · split at hs <;> cases hs <;> exact .of_eq rfl rfl rfl
    · cases hs
  | sender q => exact senderStep_link hi hs p
  | recv waker =>
    simp only [Channel.step] at hs
    split at hs <;> cases hs
    refine .of_eq ?_ ?_ rfl <;>
    · unfold State.register
      split <;> rfl
  | receiver => exact receiverStep_link hi hs p

/-- A send future that is pending after a step that does not poll it was pending before it, or is
a new one. -/
theorem step_sending (hi : SlotsInv N s ids live) (ha : ∀ q waker, a ≠ .poll q waker)
    (hs : Channel.step N s a = some s') {m : Msg T} {w : Option Waker}
    (hp : s'.senders p = .sending m w) :
    s.senders p = .sending m w ∨ (s.senders p).inFuture = false := by
  cases hmoves : a.moves p with
  | false => exact Or.inl ((step_stays (i := 0) hi hmoves hs).1.symm.trans hp)
  | true =>
    have hself : ∀ {st : Sender T}, (s.setSender p st).senders p = .sending m w →
        st = .sending m w := fun h => setSender_self.symm.trans h
    cases a with
    | poll q waker => exact absurd rfl (ha q waker)
    | trySend q val | send q val | clone r q =>
      obtain rfl : q = p := by simpa [Action.moves] using hmoves
      simp only [Channel.step] at hs
      split at hs <;> cases hs
      all_goals exact Or.inr (by simp only [*, Sender.inFuture])
    | cancel q =>
      obtain rfl : q = p := by simpa [Action.moves] using hmoves
      simp only [Channel.step] at hs
      split at hs <;> cases hs
      cases hself hp
    | dropSender q =>
      obtain rfl : q = p := by simpa [Action.moves] using hmoves
      refine Or.inr ?_
      simp only [Channel.step] at hs
      split at hs
      · simp only [*, Sender.inFuture]
      · cases hs
    | sender q =>
      obtain rfl : q = p := by simpa [Action.moves] using hmoves
      cases hq : s.senders q with
      | sending m' w' =>
        simp only [Channel.step, Channel.senderStep, hq] at hs
        cases hs
      | unlink m' out =>
        simp only [Channel.step, Channel.senderStep, hq] at hs
        split at hs <;> cases hs <;> cases hself hp
      | returnSlot m' out =>
        have hgone : (s'.senders q).inFuture = false := by
          simp only [Channel.step, Channel.senderStep, hq] at hs
          split at hs
          · rename_i hcell
            obtain ⟨chan, woken, -, hret, -, -⟩ := hi.returnCell hq hcell
            simp only [hret, Option.some.injEq] at hs
            subst hs
            exact finish_not_inFuture m' out
          · cases hs
            exact finish_not_inFuture m' out
        rw [hp] at hgone
        cases hgone
      | absent | idle | tryWaitQueue m' | tryClosed m' | tryPop m' => exact Or.inr rfl
      | write j m' | push j m' | wake m' | dropWake | dropped => exact Or.inr rfl
    | tryRecv | recv waker | dropReceiver | receiver => cases hmoves

/-! ## What a poll does to the line -/

/-- What a poll of `q` does to its link and to the line. -/
inductive PollStep (s s' : State T) (q : Nat) : List Nat → List Nat → Prop where
  | ready {ids : List Nat} : (∀ m w, s'.senders q ≠ .sending m w) → PollStep s s' q ids ids
  /-- it is in line already -/
  | again {ids : List Nat} (m : Msg T) (w : Option Waker) (v : Waker × Nat) :
    s'.senders q = .sending m w → s.chan.waitQueue.status q = some (v, false) →
    s'.chan.waitQueue.status q = some (v, false) → PollStep s s' q ids ids
  | enters {ids : List Nat} (m : Msg T) (w : Option Waker) (v : Waker × Nat) :
    s'.senders q = .sending m w → s.chan.waitQueue.status q = none →
    s'.chan.waitQueue.status q = some (v, false) → PollStep s s' q ids (ids ++ [q])

theorem poll_step (hi : SlotsInv N s ids live) (waker : Waker) (m : Msg T) :
    ∃ ids', (Channel.poll s q waker m).chan.waitQueue.Represents ids' ∧
      PollStep s (Channel.poll s q waker m) q ids ids' ∧
      ∀ p, p ≠ q → (Channel.poll s q waker m).chan.waitQueue.status p =
        s.chan.waitQueue.status p := by
  have hrep := hi.waiting.represents
  unfold Channel.poll
  split
  · exact ⟨ids, hrep, .ready (by simp), fun _ _ => rfl⟩
  · cases hlink : s.chan.waitQueue.links q with
    | some link =>
      have hst : s.chan.waitQueue.status q = some (link.val, link.isPopped) := by
        simp [WaitQueue.status, WaitQueue.statusOf, hlink]
      cases hpop : link.isPopped with
      | false =>
        rw [hpop] at hst
        simp only [hpop, Bool.false_eq_true, if_false]
        exact ⟨ids, hrep, .again m (some waker) link.val setSender_self hst hst, fun _ _ => rfl⟩
      | true =>
        rw [hpop] at hst
        have hnot := hi.waiting.not_mem_of_popped hst
        have htake := hrep.take hnot
        simp only [hpop, if_true]
        refine ⟨ids, htake.1, .ready (by simp [State.setSender]), fun p hpq => ?_⟩
        rw [htake.2, Function.update_of_ne hpq]
    | none =>
      have hst : s.chan.waitQueue.status q = none := by
        simp [WaitQueue.status, WaitQueue.statusOf, hlink]
      obtain ⟨hpush, hstatus⟩ := hrep.insert_push hlink (waker, q)
      simp only
      split
      · refine ⟨ids ++ [q], hpush, .enters m (some waker) (waker, q) setSender_self hst ?_,
          fun p hpq => ?_⟩
        · rw [hstatus, Function.update_self]
        · rw [hstatus, Function.update_of_ne hpq]
      · rename_i hfree
        split
        · exact ⟨ids, hrep, .ready (by simp [State.setSender]), fun _ _ => rfl⟩
        · -- `freeq` was found not to be empty
          rename_i hlast
          rw [List.getLast?_eq_none_iff.mp hlast] at hfree
          simp at hfree

/-! ## The notes tell who is in line -/

/-- What the notes say about a pending send future, by what it can see of its link. -/
def Futures.Tells (n : Futures) (p : Nat) : Option ((Waker × Nat) × Bool) → Prop
  | none => n.first p = none ∧ n.served p = false
  | some (_, isPopped) => n.first p ≠ none ∧ n.served p = isPopped

variable {n : Futures}

/-- The links in line and the notes about them. -/
structure Noted (s : State T) (n : Futures) (ids : List Nat) : Prop where
  represents : s.chan.waitQueue.Represents ids
  past : ∀ p t, n.first p = some t → t < n.now
  outside : ∀ p, (s.senders p).inFuture = false → n.first p = none ∧ n.served p = false
  waiting : ∀ p ∈ ids, n.first p ≠ none
  sending : ∀ p m w, s.senders p = .sending m w → n.Tells p (s.chan.waitQueue.status p)
  ordered : ids.Pairwise fun p q => ∃ t u, n.first p = some t ∧ n.first q = some u ∧ t < u

theorem Futures.next_first (hp : (s'.senders p).inFuture = true) (hpend : a.pends s' p = false) :
    (n.next s a s').first p = n.first p := by
  simp only [Futures.next, hp, hpend, if_true, Bool.false_eq_true, if_false]

theorem Futures.next_served (hp : (s'.senders p).inFuture = true) :
    (n.next s a s').served p = (n.served p || s.hands s' p || s.dismisses a p) := by
  simp only [Futures.next, hp, Bool.true_and]

/-- Outside of a send future nothing is noted. -/
theorem Futures.next_outside (hp : (s'.senders p).inFuture = false) :
    (n.next s a s').first p = none ∧ (n.next s a s').served p = false := by
  simp only [Futures.next, hp, Bool.false_eq_true, if_false, Bool.false_and, and_self]

theorem pends_eq_false (h : ∀ waker, a ≠ .poll p waker) : a.pends s' p = false := by
  cases a with
  | poll q waker =>
    have hqp : q ≠ p := by
      rintro rfl
      exact h waker rfl
    unfold Action.pends
    split
    · rename_i hq _
      cases hq
      simpa using hqp
    · rfl
  | _ => rfl

/-- What is noted is in the past. -/
theorem Noted.next_past (h : Noted s n ids) (p t : Nat) (ht : (n.next s a s').first p = some t) :
    t < (n.next s a s').now := by
  show t < n.now + 1
  have hfirst : n.first p = some t ∨ t = n.now := by
    simp only [Futures.next] at ht
    split at ht
    · split at ht
      · rcases Option.or_eq_some_iff.mp ht with ht | ⟨-, ht⟩
        · exact Or.inl ht
        · exact Or.inr (Option.some.inj ht).symm
      · exact Or.inl ht
    · cases ht
  rcases hfirst with ht | rfl
  · exact Nat.lt_succ_of_lt (h.past p t ht)
  · exact Nat.lt_succ_self _

/-- Senders whose notes stay keep their order. -/
theorem Noted.sublist_ordered (h : Noted s n ids) {n' : Futures} (hsub : ids'.Sublist ids)
    (hfirst : ∀ p ∈ ids', n'.first p = n.first p) :
    ids'.Pairwise fun p q => ∃ t u, n'.first p = some t ∧ n'.first q = some u ∧ t < u := by
  refine (h.ordered.sublist hsub).imp_of_mem fun hp hq => ?_
  rintro ⟨t, u, ht, hu, htu⟩
  exact ⟨t, u, (hfirst _ hp).trans ht, (hfirst _ hq).trans hu, htu⟩

/-- Without a poll nobody gets in line. -/
theorem step_sublist (hi : SlotsInv N s ids live) (ha : ∀ q waker, a ≠ .poll q waker)
    (hs : Channel.step N s a = some s') :
    ∃ ids', s'.chan.waitQueue.Represents ids' ∧ ids'.Sublist ids := by
  obtain ⟨ids', hrep, hline⟩ := step_line hi hs
  refine ⟨ids', hrep, ?_⟩
  cases hline with
  | stay | free => exact List.Sublist.refl _
  | leave p => exact List.erase_sublist
  | hand | wakeAll => exact List.sublist_cons_self ..
  | enter p _ hp =>
    exfalso
    obtain ⟨v, hv⟩ := hrep.mem_iff.mp (List.mem_append_right ids (List.mem_singleton_self p))
    have hold : s.chan.waitQueue.status p ≠ some (v, false) := fun hst =>
      hp (hi.waiting.represents.mem_iff.mpr ⟨v, hst⟩)
    cases step_link hi ha hs p with
    | same hst => exact hold (hst.symm.trans hv)
    | popped u _ hst => simp [hst] at hv
    | unlinked u _ _ hst => simp [hst] at hv
    | forgotten hst => simp [hst] at hv

theorem Noted.step_quiet (h : Noted s n ids) (hi : SlotsInv N s ids live) (ht : Told s)
    (ha : ∀ q waker, a ≠ .poll q waker) (hs : Channel.step N s a = some s') :
    ∃ ids', Noted s' (n.next s a s') ids' := by
  obtain ⟨ids', hrep, hsub⟩ := step_sublist hi ha hs
  obtain ⟨ids'', live', hi'⟩ := hi.step hs
  obtain rfl := hi'.waiting.represents.unique hrep
  have hpend : ∀ p, a.pends s' p = false := fun p => pends_eq_false (ha p)
  have hfirst : ∀ p ∈ ids'', (n.next s a s').first p = n.first p := fun p hp =>
    Futures.next_first (Sender.inFuture_of_mayWait (hi'.waiting.waits p hp)) (hpend p)
  refine ⟨ids'', hrep, h.next_past, fun p hp => Futures.next_outside hp, fun p hp => ?_,
    fun p m w hp => ?_, h.sublist_ordered hsub hfirst⟩
  · rw [hfirst p hp]
    exact h.waiting p (hsub.subset hp)
  · have hfut : (s'.senders p).inFuture = true := by rw [hp]; rfl
    -- what was known of it before the step, which a new future has no link for
    have hold : n.Tells p (s.chan.waitQueue.status p) := by
      rcases step_sending hi ha hs hp with hp | hp
      · exact h.sending p m w hp
      · rw [ht.popped.status_none hp]
        exact h.outside p hp
    have hf := Futures.next_first (n := n) (s := s) hfut (hpend p)
    have hserved := Futures.next_served (n := n) (s := s) (a := a) hfut
    cases step_link hi ha hs p with
    | same hst hh hd =>
      rw [hh, hd, Bool.or_false, Bool.or_false] at hserved
      unfold Futures.Tells at hold ⊢
      rwa [hst, hf, hserved]
    | popped v hst hst' hev =>
      rw [Bool.or_assoc, hev, Bool.or_true] at hserved
      rw [hst] at hold
      rw [hst']
      exact ⟨hf ▸ hold.1, hserved⟩
    | unlinked v _ _ _ hne => exact absurd hp (hne m w)
    | forgotten _ hgone =>
      rw [hfut] at hgone
      cases hgone

theorem Noted.step_poll (h : Noted s n ids) (hi : SlotsInv N s ids live) {m₀ : Msg T}
    {w₀ : Option Waker} (hq : s.senders q = .sending m₀ w₀) (waker : Waker)
    (hs : Channel.step N s (.poll q waker) = some (Channel.poll s q waker m₀)) :
    ∃ ids', Noted (Channel.poll s q waker m₀)
      (n.next s (.poll q waker) (Channel.poll s q waker m₀)) ids' := by
  obtain ⟨ids', hrep, hpoll, hstatus⟩ := poll_step (q := q) hi waker m₀
  obtain ⟨ids'', live', hi'⟩ := hi.step hs
  obtain rfl := hi'.waiting.represents.unique hrep
  have hstay : ∀ p, p ≠ q → _ := fun p hpq => poll_stays (s := s) hpq waker m₀
  generalize Channel.poll s q waker m₀ = s' at hs hpoll hstatus hi' hstay hrep ⊢
  have hdis : ∀ p, s.dismisses (.poll q waker) p = false := dismisses_of_ne (by rintro ⟨⟩)
  have hother : ∀ p, p ≠ q → (s'.senders p).inFuture = true →
      (n.next s (.poll q waker) s').first p = n.first p ∧
      (n.next s (.poll q waker) s').served p = n.served p := by
    intro p hpq hp
    refine ⟨Futures.next_first hp (pends_eq_false ?_), ?_⟩
    · rintro _ ⟨⟩
      exact hpq rfl
    · rw [Futures.next_served hp, hands_of_eq (hstay p hpq).2, hdis, Bool.or_false, Bool.or_false]
  -- the notes about the others are what they were
  have htells : ∀ p m w, p ≠ q → s'.senders p = .sending m w →
      (n.next s (.poll q waker) s').Tells p (s'.chan.waitQueue.status p) := by
    intro p m w hpq hp
    obtain ⟨hf, hserved⟩ := hother p hpq (by rw [hp]; rfl)
    have hold := h.sending p m w ((hstay p hpq).1.symm.trans hp)
    unfold Futures.Tells at hold ⊢
    rwa [hstatus p hpq, hf, hserved]
  -- a poll that returns `Pending` has handed nothing out
  have hpending : ∀ m w v, s'.senders q = .sending m w →
      s'.chan.waitQueue.status q = some (v, false) →
      (n.next s (.poll q waker) s').first q = (n.first q).or (some n.now) ∧
      (n.next s (.poll q waker) s').served q = n.served q := by
    intro m w v hsend hst
    have hfut : (s'.senders q).inFuture = true := by rw [hsend]; rfl
    have hpend : Action.pends (.poll q waker) s' q = true := by simp [Action.pends, hsend]
    have hcell : s'.chan.cells q = none :=
      hi'.waiting.cell_none (hrep.mem_iff.mpr ⟨v, hst⟩)
    have hhands : s.hands s' q = false := by simp [State.hands, hcell]
    refine ⟨?_, ?_⟩
    · simp only [Futures.next, hfut, hpend, if_true]
    · rw [Futures.next_served hfut, hhands, hdis, Bool.or_false, Bool.or_false]
  have htell := h.sending q m₀ w₀ hq
  cases hpoll with
  | ready hne =>
    have hfirst : ∀ p ∈ ids, (n.next s (.poll q waker) s').first p = n.first p := by
      intro p hp
      have hfut := Sender.inFuture_of_mayWait (hi'.waiting.waits p hp)
      by_cases hpq : p = q
      · subst hpq
        refine Futures.next_first hfut ?_
        unfold Action.pends
        split
        · rename_i hsend
          exact absurd hsend (hne _ _)
        · rfl
      · exact (hother p hpq hfut).1
    refine ⟨ids, hrep, h.next_past, fun p hp => Futures.next_outside hp, fun p hp => ?_,
      fun p m w hp => htells p m w ?_ hp, h.sublist_ordered (List.Sublist.refl _) hfirst⟩
    · rw [hfirst p hp]
      exact h.waiting p hp
    · rintro rfl
      exact hne m w hp
  | again m w v hsend hst hst' =>
    obtain ⟨hf, hserved⟩ := hpending m w v hsend hst'
    rw [hst] at htell
    obtain ⟨t, ht⟩ := Option.ne_none_iff_exists'.mp htell.1
    rw [ht, Option.some_or, ← ht] at hf
    have hfirst : ∀ p ∈ ids, (n.next s (.poll q waker) s').first p = n.first p := by
      intro p hp
      by_cases hpq : p = q
      · rw [hpq, hf]
      · exact (hother p hpq (Sender.inFuture_of_mayWait (hi'.waiting.waits p hp))).1
    refine ⟨ids, hrep, h.next_past, fun p hp => Futures.next_outside hp, fun p hp => ?_,
      fun p m w hp => ?_, h.sublist_ordered (List.Sublist.refl _) hfirst⟩
    · rw [hfirst p hp]
      exact h.waiting p hp
    · by_cases hpq : p = q
      · subst hpq
        rw [hst']
        exact ⟨hf ▸ htell.1, hserved.trans htell.2⟩
      · exact htells p m w hpq hp
  | enters m w v hsend hst hst' =>
    obtain ⟨hf, hserved⟩ := hpending m w v hsend hst'
    rw [hst] at htell
    rw [htell.1, Option.none_or] at hf
    have hnew : ∀ p ∈ ids, p ≠ q := by
      rintro p hp rfl
      exact h.waiting p hp htell.1
    have hfirst : ∀ p ∈ ids, (n.next s (.poll q waker) s').first p = n.first p := fun p hp =>
      (hother p (hnew p hp) (Sender.inFuture_of_mayWait
        (hi'.waiting.waits p (List.mem_append_left _ hp)))).1
    refine ⟨ids ++ [q], hrep, h.next_past, fun p hp => Futures.next_outside hp, fun p hp => ?_,
      fun p m w hp => ?_, ?_⟩
    · rcases List.mem_append.mp hp with hp | hp
      · rw [hfirst p hp]
        exact h.waiting p hp
      · rw [List.mem_singleton.mp hp, hf]
        nofun
    · by_cases hpq : p = q
      · subst hpq
        rw [hst']
        exact ⟨by rw [hf]; nofun, hserved.trans htell.2⟩
      · exact htells p m w hpq hp
    · refine List.pairwise_append.mpr
        ⟨h.sublist_ordered (List.Sublist.refl _) hfirst, List.pairwise_singleton .., ?_⟩
      intro p hp r hr
      obtain ⟨t, ht⟩ := Option.ne_none_iff_exists'.mp (h.waiting p hp)
      rw [List.mem_singleton.mp hr]
      exact ⟨t, n.now, (hfirst p hp).trans ht, hf, h.past p t ht⟩

/-- **Every step keeps the notes in agreement with the line.** -/
theorem Noted.step (h : Noted s n ids) (hi : SlotsInv N s ids live) (ht : Told s)
    (hs : Channel.step N s a = some s') : ∃ ids', Noted s' (n.next s a s') ids' := by
  by_cases ha : ∃ q waker, a = .poll q waker
  · obtain ⟨q, waker, rfl⟩ := ha
    have hpoll := hs
    simp only [Channel.step] at hs
    split at hs <;> cases hs
    rename_i hq
    exact h.step_poll hi hq waker hpoll
  · exact h.step_quiet hi ht (fun q waker hqw => ha ⟨q, waker, hqw⟩) hs

theorem noted_init : Noted (machine T N).init (noted T N).init.2 [] where
  represents := WaitQueue.new_represents
  past := nofun
  outside _ _ := ⟨rfl, rfl⟩
  waiting := nofun
  sending p m w hp := by
    have hp : (if p = 0 then Sender.idle else Sender.absent : Sender T) = .sending m w := hp
    split at hp <;> cases hp
  ordered := List.Pairwise.nil

theorem noted_reachable (hN : N ≤ 255) (h : (noted T N).Reachable (s, n)) :
    ∃ ids live, SlotsInv N s ids live ∧ Noted s n ids := by
  have hnoted : ∃ ids, Noted s n ids := by
    refine h.invariant (P := fun x => ∃ ids, Noted x.1 x.2 ids) ⟨[], noted_init⟩ ?_
    rintro ⟨s, n⟩ a ⟨s', n'⟩ hr ⟨ids, hn⟩ hs
    obtain ⟨hs, hnext⟩ := Machine.withEvents_step hs
    obtain rfl : n' = n.next s a s' := hnext
    obtain ⟨ids', live, hi⟩ := slotsInv_reachable hN hr.of_withEvents
    obtain rfl := hi.waiting.represents.unique hn.represents
    exact hn.step hi (told_reachable hN hr.of_withEvents) hs
  obtain ⟨ids, hn⟩ := hnoted
  obtain ⟨ids', live, hi⟩ := slotsInv_reachable hN h.of_withEvents
  obtain rfl := hi.waiting.represents.unique hn.represents
  exact ⟨ids', live, hi, hn⟩

/-! ## Only live sends are in line -/

/-- No pointer leads to what was the send future of `p`, neither to its link nor to its slot cell. -/
structure Unreached (s : State T) (p : Nat) : Prop where
  link : ¬ s.chan.waitQueue.Reaches p
  cell : ∀ q l, s.chan.waitQueue.Reaches q → s.chan.waitQueue.links q = some l → l.val.2 ≠ p
  gone : s.chan.waitQueue.links p = none ∧ s.chan.cells p = none

theorem links_none_iff : s.chan.waitQueue.status p = none ↔ s.chan.waitQueue.links p = none :=
  Option.map_eq_none_iff

theorem SlotsInv.unreached (hi : SlotsInv N s ids live) (ht : Told s)
    (hp : (s.senders p).inFuture = false) : Unreached s p where
  link hr := by
    have hwait := hi.waiting.waits p (hi.waiting.represents.reaches_iff.mp hr)
    rw [Sender.inFuture_of_mayWait hwait] at hp
    cases hp
  cell q l hr hl := by
    have hst : s.chan.waitQueue.status q = some (l.val, l.isPopped) := by
      simp [WaitQueue.status, WaitQueue.statusOf, hl]
    rw [hi.waiting.own q _ _ hst]
    rintro rfl
    have hwait := hi.waiting.waits q (hi.waiting.represents.reaches_iff.mp hr)
    rw [Sender.inFuture_of_mayWait hwait] at hp
    cases hp
  gone := ⟨links_none_iff.mp (ht.popped.status_none hp), hi.waiting.cell_none_of_not_inFuture hp⟩

/-- Nothing is written to where the link and the cell were. -/
theorem SlotsInv.untouched (hi : SlotsInv N s ids live) (ht : Told s)
    (hp : (s.senders p).inFuture = false) (hs : Channel.step N s a = some s') :
    s'.chan.waitQueue.links p = none ∧ s'.chan.cells p = none := by
  have hold := ht.popped.status_none hp
  have hst : s'.chan.waitQueue.status p = none := by
    by_cases ha : ∃ q waker, a = .poll q waker
    · obtain ⟨q, waker, rfl⟩ := ha
      simp only [Channel.step] at hs
      split at hs <;> cases hs
      rename_i m w hq
      have hpq : p ≠ q := by
        rintro rfl
        rw [hq] at hp
        cases hp
      obtain ⟨_, -, -, hstatus⟩ := poll_step (q := q) hi waker m
      exact (hstatus p hpq).trans hold
    · cases step_link hi (fun q waker hqw => ha ⟨q, waker, hqw⟩) hs p with
      | same hst => exact hst.trans hold
      | popped v hst => simp [hst] at hold
      | unlinked v b hst => simp [hst] at hold
      | forgotten hst => exact hst
  refine ⟨links_none_iff.mp hst, ?_⟩
  obtain ⟨ids', live', hi'⟩ := hi.step hs
  rw [Option.eq_none_iff_forall_ne_some]
  intro i hc
  obtain ⟨-, v, hv⟩ := hi'.waiting.cell p i hc
  rw [hst] at hv
  cases hv

/--
**The wait queue refers to live sends only.** Whatever the parties do, the pointers form a list
that nothing else is reached from, in the order of the first polls that returned `Pending`. It has
the pending sends that were neither handed a slot nor popped by the drop of the receiver, and
beyond them only futures whose final poll or drop is not over. Nothing leads to the link or the
cell of a future that is gone, and no step writes there.
-/
theorem live_sends_in_line (hN : N ≤ 255) (h : (noted T N).Reachable (s, n)) :
    (∃ ids, s.chan.waitQueue.Represents ids ∧
      (∀ p, s.chan.waitQueue.Reaches p ↔ p ∈ ids) ∧
      (ids.Pairwise fun p q => ∃ t u, n.first p = some t ∧ n.first q = some u ∧ t < u) ∧
      (∀ p m w, s.senders p = .sending m w →
        (p ∈ ids ↔ n.first p ≠ none ∧ n.served p = false)) ∧
      ∀ p ∈ ids, (s.senders p).mayWait = true) ∧
    ∀ p, (s.senders p).inFuture = false → Unreached s p ∧
      ∀ a s', (machine T N).step s a = some s' →
        s'.chan.waitQueue.links p = none ∧ s'.chan.cells p = none := by
  obtain ⟨ids, live, hi, hn⟩ := noted_reachable hN h
  have ht := told_reachable hN h.of_withEvents
  refine ⟨⟨ids, hn.represents, fun _ => hn.represents.reaches_iff, hn.ordered, fun p m w hp => ?_,
    hi.waiting.waits⟩, fun p hp => ⟨hi.unreached ht hp, fun a s' hs => hi.untouched ht hp hs⟩⟩
  have htell := hn.sending p m w hp
  rw [hn.represents.mem_iff]
  cases hst : s.chan.waitQueue.status p with
  | none =>
    rw [hst] at htell
    constructor
    · rintro ⟨v, ⟨⟩⟩
    · rintro ⟨hfirst, -⟩
      exact absurd htell.1 hfirst
  | some x =>
    obtain ⟨v, isPopped⟩ := x
    rw [hst] at htell
    constructor
    · rintro ⟨u, hu⟩
      cases hu
      exact htell
    · rintro ⟨-, hserved⟩
      exact ⟨v, by rw [← hserved, htell.2]⟩

/-- Two senders wait for the only slot, and the first is handed it. -/
def firstServed : List (Action Nat) :=
  [.clone 0 1, .clone 0 2, .trySend 0 5] ++ List.replicate 6 (.sender 0) ++
    [.send 1 7, .poll 1 3, .send 2 8, .poll 2 4, .tryRecv] ++ List.replicate 3 .receiver

theorem live_sends_in_line_run :
    ∃ s n, (noted Nat 1).exec (noted Nat 1).init firstServed = some (s, n) ∧
      ((n.first 1, n.served 1), (n.first 2, n.served 2)) = ((some 10, true), (some 12, false)) ∧
      (¬ s.chan.waitQueue.Reaches 1 ∧ s.chan.waitQueue.Reaches 2) ∧ Unreached s 0 := by
  have hrun : ((noted Nat 1).exec (noted Nat 1).init firstServed).map (fun x =>
      (((x.2.first 1, x.2.served 1), (x.2.first 2, x.2.served 2)),
        (x.1.senders 1, x.1.senders 2), (x.1.senders 0).inFuture)) =
      some (((some 10, true), (some 12, false)),
        (.sending ⟨1, 1, 7⟩ (some 3), .sending ⟨2, 2, 8⟩ (some 4)), false) := by decide +kernel
  obtain ⟨⟨s, n⟩, hs, hobs⟩ := Option.map_eq_some_iff.mp hrun
  obtain ⟨hnotes, hrest⟩ := Prod.mk.inj hobs
  obtain ⟨hsend, hidle⟩ := Prod.mk.inj hrest
  obtain ⟨h₁, h₂⟩ := Prod.mk.inj hsend
  obtain ⟨⟨ids, -, hreaches, -, hline, -⟩, hgone⟩ :=
    live_sends_in_line (N := 1) (by decide) (Machine.reachable_iff_exec.mpr ⟨firstServed, hs⟩)
  obtain ⟨hn₁, hn₂⟩ := Prod.mk.inj hnotes
  obtain ⟨-, hserved₁⟩ := Prod.mk.inj hn₁
  obtain ⟨hfirst₂, hserved₂⟩ := Prod.mk.inj hn₂
  refine ⟨s, n, hs, hnotes, ⟨fun hr => ?_, ?_⟩, (hgone 0 hidle).1⟩
  · have := ((hline 1 _ _ h₁).mp ((hreaches 1).mp hr)).2
    rw [hserved₁] at this
    cases this
  · exact (hreaches 2).mpr ((hline 2 _ _ h₂).mpr ⟨by rw [hfirst₂]; nofun, hserved₂⟩)

end Rticx.AsyncRt.Channel
