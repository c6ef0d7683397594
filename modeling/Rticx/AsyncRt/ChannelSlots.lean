import Rticx.AsyncRt.Channel
import Rticx.Lib.Places

/-!
# Where the indices of a channel are

An index is in one place at a time: in one of the two queues, with one sender, in the cell of one
waiting send, or with the receiver. Every critical section moves at most one index, so the
invariant is kept by one lemma about a move. Only the drop of the receiver loses indices.
-/

namespace Rticx.AsyncRt.Channel

open Lib Lib.Places

variable {T : Type} {N : Nat}

/-! ## Places -/

/-- Where an index can be; what a party holds is told apart by what is in its slot. -/
inductive Place where
  | free
  | ready
  | taken (p : Nat)
  | written (p : Nat)
  | cell (p : Nat)
  | unread
  | emptied
  deriving DecidableEq

/-- The slot of an index at the place holds a value nobody read. -/
def Place.full : Place → Bool
  | .ready | .written _ | .unread => true
  | .free | .taken _ | .cell _ | .emptied => false

/-- The indices at a place. -/
def State.items (s : State T) : Place → List Nat
  | .free => s.chan.freeq
  | .ready => s.chan.readyq
  | .taken p => (s.senders p).taken.toList
  | .written p => (s.senders p).written.toList
  | .cell p => (s.chan.cells p).toList
  | .unread => s.receiver.unread.toList
  | .emptied => s.receiver.emptied.toList

/-- Every index is in exactly one place as long as there is a receiver, and so is every value. -/
structure Owned (N : Nat) (items : Place → List Nat) (slots : Nat → Option (Msg T))
    (dropped : Bool) : Prop where
  range : ∀ P, ∀ i ∈ items P, i < N
  exclusive : Exclusive items
  cover : dropped = false → ∀ i < N, ∃ P, i ∈ items P
  stored : ∀ P, ∀ i ∈ items P, (slots i).isSome = P.full

section Owned

variable {items items' : Place → List Nat} {slots slots' : Nat → Option (Msg T)} {dropped : Bool}
variable {A B : Place} {i : Nat}

/-- **One index moves.** Its slot is written or read if it goes to a place of the other kind. -/
theorem Owned.move (h : Owned N items slots dropped) (hm : Move items items' A B i)
    (hslot : (slots' i).isSome = B.full) (hslots : ∀ j, j ≠ i → slots' j = slots j) :
    Owned N items' slots' dropped where
  range P j hj := by
    rcases (hm.mem_iff h.exclusive P j).mp hj with ⟨rfl, -⟩ | ⟨-, hj⟩
    · exact h.range A j hm.mem_out
    · exact h.range P j hj
  exclusive := h.exclusive.move hm
  cover hd j hj := by
    by_cases hji : j = i
    · exact ⟨B, (hm.mem_iff h.exclusive B j).mpr (Or.inl ⟨hji, rfl⟩)⟩
    · obtain ⟨P, hP⟩ := h.cover hd j hj
      exact ⟨P, (hm.mem_iff h.exclusive P j).mpr (Or.inr ⟨hji, hP⟩)⟩
  stored P j hj := by
    rcases (hm.mem_iff h.exclusive P j).mp hj with ⟨rfl, rfl⟩ | ⟨hji, hj⟩
    · exact hslot
    · rw [hslots j hji, h.stored P j hj]

/-- An index moves to a place of the same kind, and its slot is not touched. -/
theorem Owned.carry (h : Owned N items slots dropped) (hm : Move items items' A B i)
    (hfull : A.full = B.full) : Owned N items' slots dropped :=
  h.move hm ((h.stored A i hm.mem_out).trans hfull) fun _ _ => rfl

/-- With the receiver gone, indices may get lost. -/
theorem Owned.lose (h : Owned N items slots dropped)
    (hsub : ∀ P, (items' P).Sublist (items P))
    (hslots : ∀ P, ∀ j ∈ items' P, slots' j = slots j) : Owned N items' slots' true where
  range P j hj := h.range P j ((hsub P).subset hj)
  exclusive := h.exclusive.sublist hsub
  cover := nofun
  stored P j hj := by rw [hslots P j hj, h.stored P j ((hsub P).subset hj)]

/-- **A queue has room** for an index that is somewhere else. -/
theorem Owned.length_lt (h : Owned N items slots dropped) (hi : i ∈ items A) (hne : A ≠ B) :
    (items B).length < N :=
  Places.length_lt (h.exclusive.nodup B) (h.range B) (h.range A i hi) fun hB =>
    hne (h.exclusive.unique A B i hi hB)

end Owned

/-- What `pop_back` takes and what it leaves. -/
theorem perm_cons_dropLast {l : List Nat} {i : Nat} (h : l.getLast? = some i) :
    l.Perm (i :: l.dropLast) := by
  obtain ⟨ys, rfl⟩ := List.getLast?_eq_some_iff.mp h
  rw [List.dropLast_concat]
  exact List.perm_append_singleton i ys

/-! ## Waiting senders -/

/-- The sender is in a send future, or in the dropper of one. -/
def Sender.inFuture : Sender T → Bool
  | .sending _ _ | .unlink _ _ | .returnSlot _ _ => true
  | _ => false

/-- The link of the sender may be in the wait queue. -/
def Sender.mayWait : Sender T → Bool
  | .sending _ _ | .unlink _ _ => true
  | _ => false

theorem Sender.inFuture_of_mayWait {st : Sender T} (h : st.mayWait = true) :
    st.inFuture = true := by
  cases st <;> first | rfl | cases h

/--
The wait queue: its links belong to senders that wait and have no slot yet, each points to the
cell of its own future, and only a popped link has something in its cell.
-/
structure Waiting (w : WaitQueue Nat (Waker × Nat)) (cells : Nat → Option Nat)
    (senders : Nat → Sender T) (ids : List Nat) : Prop where
  represents : w.Represents ids
  own : ∀ p v b, w.status p = some (v, b) → v.2 = p
  waits : ∀ p ∈ ids, (senders p).mayWait = true
  cell : ∀ p i, cells p = some i → (senders p).inFuture = true ∧ ∃ v, w.status p = some (v, true)

section Waiting

variable {w : WaitQueue Nat (Waker × Nat)} {cells : Nat → Option Nat} {senders : Nat → Sender T}
variable {ids : List Nat} {p i : Nat} {st : Sender T} {v : Waker × Nat}

/-- A popped link is not in the queue. -/
theorem Waiting.not_mem_of_popped (h : Waiting w cells senders ids)
    (hp : w.status p = some (v, true)) : p ∉ ids := by
  intro hin
  have := (h.represents.popped p v true hp).mpr hin
  cases this

/-- A sender outside of its futures is not in the wait queue. -/
theorem Waiting.not_mem (h : Waiting w cells senders ids) (hp : (senders p).mayWait = false) :
    p ∉ ids := by
  intro hin
  rw [h.waits p hin] at hp
  cases hp

/-- The cell of a waiting sender is empty. -/
theorem Waiting.cell_none (h : Waiting w cells senders ids) (hp : p ∈ ids) : cells p = none := by
  rw [Option.eq_none_iff_forall_ne_some]
  intro i hc
  obtain ⟨-, v, hv⟩ := h.cell p i hc
  exact h.not_mem_of_popped hv hp

/-- A sender outside of its futures has an empty cell. -/
theorem Waiting.cell_none_of_not_inFuture (h : Waiting w cells senders ids)
    (hp : (senders p).inFuture = false) : cells p = none := by
  rw [Option.eq_none_iff_forall_ne_some]
  intro i hc
  rw [(h.cell p i hc).1] at hp
  cases hp

theorem Waiting.setSender (h : Waiting w cells senders ids) (hwait : p ∈ ids → st.mayWait = true)
    (hfut : cells p ≠ none → st.inFuture = true) :
    Waiting w cells (Function.update senders p st) ids where
  represents := h.represents
  own := h.own
  waits q hq := by
    by_cases hqp : q = p
    · subst hqp
      rw [Function.update_self]
      exact hwait hq
    · rw [Function.update_of_ne hqp]
      exact h.waits q hq
  cell q i hc := by
    refine ⟨?_, (h.cell q i hc).2⟩
    by_cases hqp : q = p
    · subst hqp
      rw [Function.update_self]
      exact hfut (by simp [hc])
    · rw [Function.update_of_ne hqp]
      exact (h.cell q i hc).1

/-- A sender that is not in a send future has nothing in the wait queue. -/
theorem Waiting.setSender_of_not_inFuture (h : Waiting w cells senders ids)
    (hp : (senders p).inFuture = false) : Waiting w cells (Function.update senders p st) ids := by
  refine h.setSender (fun hin => ?_) fun hc => ?_
  · have := Sender.inFuture_of_mayWait (h.waits p hin)
    rw [hp] at this
    cases this
  · exact absurd (h.cell_none_of_not_inFuture hp) hc

/-- A cell is emptied. -/
theorem Waiting.clearCell (h : Waiting w cells senders ids) (p : Nat) :
    Waiting w (Function.update cells p none) senders ids where
  represents := h.represents
  own := h.own
  waits := h.waits
  cell q i hc := by
    by_cases hqp : q = p
    · subst hqp
      rw [Function.update_self] at hc
      cases hc
    · rw [Function.update_of_ne hqp] at hc
      exact h.cell q i hc

/-- A future forgets its link. -/
theorem Waiting.take (h : Waiting w cells senders ids) (hp : p ∉ ids) (hcell : cells p = none) :
    Waiting (w.take p) cells senders ids := by
  obtain ⟨hrep, hstatus⟩ := h.represents.take hp
  refine ⟨hrep, fun q v b hq => ?_, h.waits, fun q i hc => ⟨(h.cell q i hc).1, ?_⟩⟩
  · rw [hstatus] at hq
    by_cases hqp : q = p
    · subst hqp
      rw [Function.update_self] at hq
      cases hq
    · rw [Function.update_of_ne hqp] at hq
      exact h.own q v b hq
  · have hqp : q ≠ p := by
      rintro rfl
      rw [hcell] at hc
      cases hc
    rw [hstatus, Function.update_of_ne hqp]
    exact (h.cell q i hc).2

/-- A pending send gets in line. -/
theorem Waiting.insert_push (h : Waiting w cells senders ids) (hlink : w.links p = none)
    (hp : (senders p).mayWait = true) (waker : Waker) :
    Waiting ((w.insert p (waker, p)).push p) cells senders (ids ++ [p]) := by
  obtain ⟨hrep, hstatus⟩ := h.represents.insert_push hlink (waker, p)
  have hnone : w.status p = none := by simp [WaitQueue.status, WaitQueue.statusOf, hlink]
  refine ⟨hrep, fun q v b hq => ?_, fun q hq => ?_, fun q i hc => ⟨(h.cell q i hc).1, ?_⟩⟩
  · rw [hstatus] at hq
    by_cases hqp : q = p
    · subst hqp
      rw [Function.update_self] at hq
      cases hq
      rfl
    · rw [Function.update_of_ne hqp] at hq
      exact h.own q v b hq
  · rcases List.mem_append.mp hq with hq | hq
    · exact h.waits q hq
    · rw [List.mem_singleton.mp hq]
      exact hp
  · obtain ⟨-, v, hv⟩ := h.cell q i hc
    have hqp : q ≠ p := by
      rintro rfl
      rw [hnone] at hv
      cases hv
    exact ⟨v, by rw [hstatus, Function.update_of_ne hqp, hv]⟩

/-- The dropper takes the link out. -/
theorem Waiting.remove (h : Waiting w cells senders ids) {b : Bool}
    (hp : w.status p = some (v, b)) : Waiting (w.remove p) cells senders (ids.erase p) := by
  obtain ⟨hrep, hstatus⟩ := h.represents.remove hp
  refine ⟨hrep, fun q u c hq => ?_, fun q hq => h.waits q (List.mem_of_mem_erase hq),
    fun q i hc => ⟨(h.cell q i hc).1, ?_⟩⟩
  · rw [hstatus] at hq
    by_cases hqp : q = p
    · subst hqp
      rw [Function.update_self] at hq
      cases hq
      exact h.own q v b hp
    · rw [Function.update_of_ne hqp] at hq
      exact h.own q u c hq
  · rw [hstatus]
    by_cases hqp : q = p
    · subst hqp
      exact ⟨v, Function.update_self ..⟩
    · rw [Function.update_of_ne hqp]
      exact (h.cell q i hc).2

/-- The head of the line is popped. -/
theorem Waiting.pop_cons (h : Waiting w cells senders (p :: ids)) :
    ∃ waker w', w.pop = (some (waker, p), w') ∧ w'.status p = some ((waker, p), true) ∧
      Waiting w' cells senders ids := by
  obtain ⟨⟨waker, q⟩, w', hst, hpop, hrep, hstatus⟩ := h.represents.pop_cons
  obtain rfl : q = p := h.own p (waker, q) false hst
  refine ⟨waker, w', hpop, ?_, hrep, fun r v b hr => ?_,
    fun r hr => h.waits r (List.mem_cons_of_mem q hr), fun r i hc => ⟨(h.cell r i hc).1, ?_⟩⟩
  · rw [hstatus, Function.update_self]
  · rw [hstatus] at hr
    by_cases hrq : r = q
    · subst hrq
      rw [Function.update_self] at hr
      cases hr
      rfl
    · rw [Function.update_of_ne hrq] at hr
      exact h.own r v b hr
  · rw [hstatus]
    by_cases hrq : r = q
    · subst hrq
      exact ⟨(waker, r), Function.update_self ..⟩
    · rw [Function.update_of_ne hrq]
      exact (h.cell r i hc).2

/-- A popped sender is handed an index. -/
theorem Waiting.grant (h : Waiting w cells senders ids) (hp : w.status p = some (v, true))
    (hfut : (senders p).inFuture = true) (i : Nat) :
    Waiting w (Function.update cells p (some i)) senders ids where
  represents := h.represents
  own := h.own
  waits := h.waits
  cell q j hc := by
    by_cases hqp : q = p
    · subst hqp
      exact ⟨hfut, v, hp⟩
    · rw [Function.update_of_ne hqp] at hc
      exact h.cell q j hc

end Waiting

/-! ## Living senders -/

/-- `num_senders` counts the senders that are there. -/
structure Live (numSenders : Nat) (senders : Nat → Sender T) (live : List Nat) : Prop where
  nodup : live.Nodup
  mem : ∀ p, p ∈ live ↔ (senders p).isLive = true
  count : numSenders = live.length

section Live

variable {n p : Nat} {senders : Nat → Sender T} {live : List Nat} {st : Sender T}

/-- A property of one sender that its move keeps. -/
theorem update_same {β : Type} (f : Sender T → β) (h : f st = f (senders p)) (q : Nat) :
    f (Function.update senders p st q) = f (senders q) := by
  by_cases hqp : q = p
  · subst hqp
    rw [Function.update_self, h]
  · rw [Function.update_of_ne hqp]

theorem Live.setSender (h : Live n senders live) (hlive : st.isLive = (senders p).isLive) :
    Live n (Function.update senders p st) live where
  nodup := h.nodup
  mem q := by rw [h.mem q, update_same Sender.isLive hlive]
  count := h.count

/-- A sender is cloned. -/
theorem Live.clone (h : Live n senders live) (hp : (senders p).isLive = false)
    (hst : st.isLive = true) : Live (n + 1) (Function.update senders p st) (p :: live) where
  nodup := by
    refine List.nodup_cons.mpr ⟨fun hin => ?_, h.nodup⟩
    rw [(h.mem p).mp hin] at hp
    cases hp
  mem q := by
    by_cases hqp : q = p
    · subst hqp
      simp [hst]
    · simp [hqp, h.mem q]
  count := by rw [h.count, List.length_cons]

/-- A sender is dropped. -/
theorem Live.drop (h : Live (n + 1) senders live) (hp : (senders p).isLive = true)
    (hst : st.isLive = false) : Live n (Function.update senders p st) (live.erase p) where
  nodup := h.nodup.erase p
  mem q := by
    rw [h.nodup.mem_erase_iff]
    by_cases hqp : q = p
    · subst hqp
      simp [hst]
    · simp [hqp, h.mem q]
  count := by
    rw [List.length_erase_of_mem ((h.mem p).mpr hp), ← h.count, Nat.add_sub_cancel]

end Live

/-! ## The invariant -/

/-- `Receiver::drop` set its flag. -/
def Receiver.gone : Receiver T → Bool
  | .drain | .drainRead _ | .wakeAll | .dropped => true
  | _ => false

/-- The invariant of the slots. -/
structure SlotsInv (N : Nat) (s : State T) (ids live : List Nat) : Prop where
  owned : Owned N s.items s.chan.slots s.chan.receiverDropped
  waiting : Waiting s.chan.waitQueue s.chan.cells s.senders ids
  live : Live s.chan.numSenders s.senders live
  gone : s.chan.receiverDropped = s.receiver.gone
  fault : s.fault = false

variable {s s' : State T} {ids live : List Nat} {p i : Nat} {m : Msg T}

section Frame

variable {st : Sender T}

@[simp] theorem setSender_chan : (s.setSender p st).chan = s.chan := rfl

@[simp] theorem setSender_self : (s.setSender p st).senders p = st := Function.update_self ..

/-- The indices outside of a sender do not change when it moves. -/
theorem setSender_items (ht : st.taken = (s.senders p).taken)
    (hw : st.written = (s.senders p).written) : (s.setSender p st).items = s.items := by
  funext P
  cases P with
  | taken q => exact congrArg Option.toList (update_same Sender.taken ht q)
  | written q => exact congrArg Option.toList (update_same Sender.written hw q)
  | free | ready | cell q | unread | emptied => rfl

end Frame

/-! ## Critical sections that move no index -/

/-- The history and the waker of the receiver do not matter. -/
theorem SlotsInv.congr (h : SlotsInv N s ids live)
    (hchan : s'.chan = { s.chan with receiverWaker := s'.chan.receiverWaker })
    (hsenders : s'.senders = s.senders) (hreceiver : s'.receiver = s.receiver)
    (hfault : s'.fault = s.fault) : SlotsInv N s' ids live := by
  obtain ⟨chan, senders, receiver, fault, _, _, _, _, _, _, _, _, _⟩ := s'
  simp only at hchan hsenders hreceiver hfault
  subst hsenders hreceiver hfault
  rw [hchan]
  exact ⟨h.owned, h.waiting, h.live, h.gone, h.fault⟩

/-- A sender moves on with the index it has, if it has one. -/
theorem SlotsInv.setSender (h : SlotsInv N s ids live) {st : Sender T}
    (ht : st.taken = (s.senders p).taken) (hw : st.written = (s.senders p).written)
    (hwait : p ∈ ids → st.mayWait = true) (hfut : s.chan.cells p ≠ none → st.inFuture = true)
    (hlive : st.isLive = (s.senders p).isLive) : SlotsInv N (s.setSender p st) ids live where
  owned := by
    rw [setSender_items ht hw]
    exact h.owned
  waiting := h.waiting.setSender hwait hfut
  live := h.live.setSender hlive
  gone := h.gone
  fault := h.fault

/-- The same outside of the send futures. -/
theorem SlotsInv.setSender_of_not_inFuture (h : SlotsInv N s ids live) {st : Sender T}
    (hfut : (s.senders p).inFuture = false) (ht : st.taken = (s.senders p).taken)
    (hw : st.written = (s.senders p).written) (hlive : st.isLive = (s.senders p).isLive) :
    SlotsInv N (s.setSender p st) ids live where
  owned := by
    rw [setSender_items ht hw]
    exact h.owned
  waiting := h.waiting.setSender_of_not_inFuture hfut
  live := h.live.setSender hlive
  gone := h.gone
  fault := h.fault

/-- The sender is there, has no index and no send future. -/
def Sender.plain : Sender T → Bool
  | .idle | .tryWaitQueue _ | .tryClosed _ | .tryPop _ | .wake _ => true
  | _ => false

/-- A sender without index moves on outside of the send futures. -/
theorem SlotsInv.setPlain (h : SlotsInv N s ids live) {st : Sender T}
    (hp : (s.senders p).plain = true) (hst : st.plain = true) :
    SlotsInv N (s.setSender p st) ids live := by
  have hplain : ∀ st : Sender T, st.plain = true →
      st.inFuture = false ∧ st.taken = none ∧ st.written = none ∧ st.isLive = true := by
    rintro (_ | _ | _ | _ | _ | _ | _ | _ | _ | _ | _ | _ | _) h <;>
      first | exact ⟨rfl, rfl, rfl, rfl⟩ | cases h
  obtain ⟨hf, ht, hw, hl⟩ := hplain _ hp
  obtain ⟨-, ht', hw', hl'⟩ := hplain _ hst
  exact h.setSender_of_not_inFuture hf (ht'.trans ht.symm) (hw'.trans hw.symm)
    (hl'.trans hl.symm)

/-- A call returns. -/
theorem SlotsInv.ret (h : SlotsInv N (s.setSender p .idle) ids live)
    (r : Except (SendError (Msg T)) Unit) : SlotsInv N (s.ret p m r) ids live :=
  h.congr rfl rfl rfl rfl

/-- The receiver moves on with the index it has, if it has one. -/
theorem SlotsInv.setReceiver (h : SlotsInv N s ids live) {st : Receiver T}
    (hu : st.unread = s.receiver.unread) (he : st.emptied = s.receiver.emptied)
    (hg : st.gone = s.receiver.gone) : SlotsInv N { s with receiver := st } ids live where
  owned := by
    have hitems : State.items { s with receiver := st } = s.items := by
      funext P
      cases P with
      | unread => exact congrArg Option.toList hu
      | emptied => exact congrArg Option.toList he
      | free | ready | taken q | written q | cell q => rfl
    rw [hitems]
    exact h.owned
  waiting := h.waiting
  live := h.live
  gone := h.gone.trans hg.symm
  fault := h.fault

/-! ## Critical sections that move an index -/

/-- `freeq` gives its first or last index to a sender. -/
theorem SlotsInv.takeFree (h : SlotsInv N s ids live) {freeq : List Nat} {st : Sender T}
    (hfree : s.chan.freeq.Perm (i :: freeq)) (hnone : (s.senders p).taken = none)
    (ht : st.taken = some i) (hw : st.written = (s.senders p).written)
    (hwait : p ∈ ids → st.mayWait = true) (hfut : s.chan.cells p ≠ none → st.inFuture = true)
    (hlive : st.isLive = (s.senders p).isLive) :
    SlotsInv N { s.setSender p st with chan := { s.chan with freeq := freeq } } ids live where
  owned := by
    refine h.owned.carry (A := .free) (B := .taken p) (i := i) ⟨nofun, hfree, ?_, ?_⟩ rfl
    · simp [State.items, hnone, ht]
    · intro P hA hB
      cases P with
      | free => exact absurd rfl hA
      | taken q =>
        have hq : q ≠ p := fun hq => hB (congrArg Place.taken hq)
        exact congrArg (fun st => st.taken.toList) (Function.update_of_ne hq st s.senders)
      | written q => exact congrArg Option.toList (update_same Sender.written hw q)
      | ready | cell q | unread | emptied => rfl
  waiting := h.waiting.setSender hwait hfut
  live := h.live.setSender hlive
  gone := h.gone
  fault := h.fault

/-- A sender that was handed an index takes it out of its cell, and forgets its link. -/
theorem SlotsInv.takeCell (h : SlotsInv N s ids live) (hcell : s.chan.cells p = some i)
    {st : Sender T} (hnone : (s.senders p).taken = none) (ht : st.taken = some i)
    (hw : st.written = (s.senders p).written) (hlive : st.isLive = (s.senders p).isLive) :
    SlotsInv N { s.setSender p st with
      chan := { s.chan with
        cells := Function.update s.chan.cells p none
        waitQueue := s.chan.waitQueue.take p } } ids live where
  owned := by
    refine h.owned.carry (A := .cell p) (B := .taken p) (i := i) ⟨nofun, ?_, ?_, ?_⟩ rfl
    · simp [State.items, hcell]
    · simp [State.items, hnone, ht]
    · intro P hA hB
      cases P with
      | cell q =>
        have hq : q ≠ p := fun hq => hA (congrArg Place.cell hq)
        exact congrArg Option.toList (Function.update_of_ne hq none s.chan.cells)
      | taken q =>
        have hq : q ≠ p := fun hq => hB (congrArg Place.taken hq)
        exact congrArg (fun st => st.taken.toList) (Function.update_of_ne hq st s.senders)
      | written q => exact congrArg Option.toList (update_same Sender.written hw q)
      | free | ready | unread | emptied => rfl
  waiting := by
    obtain ⟨-, v, hv⟩ := h.waiting.cell p i hcell
    have hp := h.waiting.not_mem_of_popped hv
    have hnone : Function.update s.chan.cells p none p = none := Function.update_self ..
    refine ((h.waiting.clearCell p).take hp hnone).setSender (fun hin => absurd hin hp) fun hc => ?_
    exact absurd hnone hc
  live := h.live.setSender hlive
  gone := h.gone
  fault := h.fault

/-- `send_footer` writes the slot. -/
theorem SlotsInv.write (h : SlotsInv N s ids live) (hp : s.senders p = .write i m) :
    SlotsInv N { s.setSender p (.push i m) with
      chan := { s.chan with slots := Function.update s.chan.slots i (some m) } } ids live where
  owned := by
    refine h.owned.move (A := .taken p) (B := .written p) (i := i) ⟨nofun, ?_, ?_, ?_⟩ ?_ ?_
    · simp [State.items, hp, Sender.taken]
    · simp [State.items, hp, Sender.written]
    · intro P hA hB
      cases P with
      | taken q =>
        have hq : q ≠ p := fun hq => hA (congrArg Place.taken hq)
        exact congrArg (fun st => st.taken.toList) (Function.update_of_ne hq _ s.senders)
      | written q =>
        have hq : q ≠ p := fun hq => hB (congrArg Place.written hq)
        exact congrArg (fun st => st.written.toList) (Function.update_of_ne hq _ s.senders)
      | free | ready | cell q | unread | emptied => rfl
    · simp [Place.full]
    · intro j hj
      exact Function.update_of_ne hj ..
  waiting := h.waiting.setSender_of_not_inFuture (by rw [hp]; rfl)
  live := h.live.setSender (by rw [hp]; rfl)
  gone := h.gone
  fault := h.fault

/-- `send_footer` pushes the index. -/
theorem SlotsInv.push (h : SlotsInv N s ids live) (hp : s.senders p = .push i m) :
    SlotsInv N { s.setSender p (.wake m) with
      chan := { s.chan with readyq := s.chan.readyq ++ [i] } } ids live where
  owned := by
    refine h.owned.carry (A := .written p) (B := .ready) (i := i) ⟨nofun, ?_, ?_, ?_⟩ rfl
    · simp [State.items, hp, Sender.written]
    · exact (List.perm_append_singleton i s.chan.readyq)
    · intro P hA hB
      cases P with
      | ready => exact absurd rfl hB
      | taken q =>
        refine congrArg Option.toList (@update_same _ p s.senders (.wake m) _ Sender.taken ?_ q)
        rw [hp]
        rfl
      | written q =>
        have hq : q ≠ p := fun hq => hA (congrArg Place.written hq)
        exact congrArg (fun st => st.written.toList) (Function.update_of_ne hq _ s.senders)
      | free | cell q | unread | emptied => rfl
  waiting := h.waiting.setSender_of_not_inFuture (by rw [hp]; rfl)
  live := h.live.setSender (by rw [hp]; rfl)
  gone := h.gone
  fault := h.fault

/-- The receiver takes the first or last index of `readyq`. -/
theorem SlotsInv.takeReady (h : SlotsInv N s ids live) {readyq : List Nat} {st : Receiver T}
    (hready : s.chan.readyq.Perm (i :: readyq)) (hnone : s.receiver.unread = none)
    (hu : st.unread = some i) (he : st.emptied = s.receiver.emptied)
    (hg : st.gone = s.receiver.gone) :
    SlotsInv N { s with receiver := st, chan := { s.chan with readyq := readyq } } ids live where
  owned := by
    refine h.owned.carry (A := .ready) (B := .unread) (i := i) ⟨nofun, hready, ?_, ?_⟩ rfl
    · simp [State.items, hnone, hu]
    · intro P hA hB
      cases P with
      | ready => exact absurd rfl hA
      | unread => exact absurd rfl hB
      | emptied => exact congrArg Option.toList he
      | free | taken q | written q | cell q => rfl
  waiting := h.waiting
  live := h.live
  gone := h.gone.trans hg.symm
  fault := h.fault

/-- `try_recv` reads the slot. -/
theorem SlotsInv.read (h : SlotsInv N s ids live) (hr : s.receiver = .read i) :
    SlotsInv N { s with
      receiver := .returnSlot i m
      chan := { s.chan with slots := Function.update s.chan.slots i none } } ids live where
  owned := by
    refine h.owned.move (A := .unread) (B := .emptied) (i := i) ⟨nofun, ?_, ?_, ?_⟩ ?_ ?_
    · simp [State.items, hr, Receiver.unread]
    · simp [State.items, hr, Receiver.emptied]
    · intro P hA hB
      cases P with
      | unread => exact absurd rfl hA
      | emptied => exact absurd rfl hB
      | free | ready | taken q | written q | cell q => rfl
    · simp [Place.full]
    · intro j hj
      exact Function.update_of_ne hj ..
  waiting := h.waiting
  live := h.live
  gone := h.gone.trans (by rw [hr]; rfl)
  fault := h.fault

/-- `Receiver::drop` reads the slot and forgets the index. -/
theorem SlotsInv.drainRead (h : SlotsInv N s ids live) (hr : s.receiver = .drainRead i) :
    SlotsInv N { s with
      receiver := .drain
      chan := { s.chan with slots := Function.update s.chan.slots i none } } ids live where
  owned := by
    have hi : i ∈ s.items .unread := by simp [State.items, hr, Receiver.unread]
    have hd : s.chan.receiverDropped = true := h.gone.trans (by rw [hr]; rfl)
    have hitems : ∀ P, P ≠ .unread → State.items { s with
        receiver := .drain
        chan := { s.chan with slots := Function.update s.chan.slots i none } } P = s.items P := by
      intro P hP
      cases P with
      | unread => exact absurd rfl hP
      | emptied => simp [State.items, hr, Receiver.emptied]
      | free | ready | taken q | written q | cell q => rfl
    show Owned N _ _ s.chan.receiverDropped
    rw [hd]
    refine h.owned.lose (fun P => ?_) fun P j hj => ?_
    · by_cases hP : P = .unread
      · subst hP
        exact List.nil_sublist _
      · rw [hitems P hP]
    · -- nothing else has the index
      refine Function.update_of_ne ?_ ..
      rintro rfl
      by_cases hP : P = .unread
      · subst hP
        cases hj
      · rw [hitems P hP] at hj
        exact hP (h.owned.exclusive.unique P .unread j hj hi)
  waiting := h.waiting
  live := h.live
  gone := h.gone.trans (by rw [hr]; rfl)
  fault := h.fault

/-! ## Returning an index -/

/-- The indices in the shared memory. -/
def items (c : Channel (Msg T)) : Place → List Nat
  | .free => c.freeq
  | .ready => c.readyq
  | .cell p => (c.cells p).toList
  | .taken _ | .written _ | .unread | .emptied => []

/-- The index went to `B`, the cell of a waiting sender or `freeq`, and nothing else changed. -/
structure Returned (ids : List Nat) (c c' : Channel (Msg T)) (B : Place) (i : Nat) : Prop where
  frame : c' = { c with freeq := c'.freeq, cells := c'.cells, waitQueue := c'.waitQueue }
  place : B = .free ∨ ∃ q ∈ ids, B = .cell q
  into : (c'.items B).Perm (i :: c.items B)
  other : ∀ P, P ≠ B → c'.items P = c.items P

/-- What `return_free_slot` does not touch. -/
theorem returnFreeSlot_frame {c c' : Channel (Msg T)} {i : Nat} {woken : Option Waker}
    (h : c.returnFreeSlot N i = some (c', woken)) :
    c' = { c with freeq := c'.freeq, waitQueue := c'.waitQueue, cells := c'.cells } := by
  unfold returnFreeSlot at h
  split at h
  · cases h
    rfl
  · split at h <;> cases h
    rfl

/-- **`return_free_slot` puts the index in one place.** -/
theorem returnFreeSlot_spec {c : Channel (Msg T)} {senders : Nat → Sender T}
    (h : Waiting c.waitQueue c.cells senders ids) (hlen : c.freeq.length < N) (i : Nat) :
    ∃ c' woken ids' B, c.returnFreeSlot N i = some (c', woken) ∧
      Waiting c'.waitQueue c'.cells senders ids' ∧ (∀ q ∈ ids', q ∈ ids) ∧
      Returned ids c c' B i := by
  cases ids with
  | nil =>
    have hpop := h.represents.pop_nil
    refine ⟨{ c with freeq := c.freeq ++ [i] }, none, [], .free, ?_, h, fun q hq => hq, rfl,
      Or.inl rfl, List.perm_append_singleton i c.freeq, fun P hP => ?_⟩
    · rw [returnFreeSlot, hpop]
      exact if_pos hlen
    · cases P with
      | free => exact absurd rfl hP
      | ready | cell q | taken q | written q | unread | emptied => rfl
  | cons q ids =>
    obtain ⟨waker, w', hpop, hst, hw⟩ := h.pop_cons
    have hfut := Sender.inFuture_of_mayWait (h.waits q List.mem_cons_self)
    refine ⟨{ c with waitQueue := w', cells := Function.update c.cells q (some i) }, some waker,
      ids, .cell q, ?_, hw.grant hst hfut i, fun r hr => List.mem_cons_of_mem q hr, rfl,
      Or.inr ⟨q, List.mem_cons_self, rfl⟩, ?_, fun P hP => ?_⟩
    · rw [returnFreeSlot, hpop]
    · simp [items, h.cell_none List.mem_cons_self]
    · cases P with
      | cell r =>
        have hr : r ≠ q := fun hr => hP (congrArg Place.cell hr)
        exact congrArg Option.toList (Function.update_of_ne hr _ c.cells)
      | free | ready | taken r | written r | unread | emptied => rfl

/-- The dropper of a send future gives back what was in the cell. -/
theorem SlotsInv.returnCell (h : SlotsInv N s ids live) {out : Outcome}
    (hp : s.senders p = .returnSlot m out) (hcell : s.chan.cells p = some i) :
    ∃ chan woken ids', ({ s.chan with cells := Function.update s.chan.cells p none } :
        Channel (Msg T)).returnFreeSlot N i = some (chan, woken) ∧ chan.cells p = none ∧
      SlotsInv N { s with chan := chan, woken := s.woken ++ woken.toList } ids' live := by
  have hi : i ∈ s.items (.cell p) := by simp [State.items, hcell]
  have hpids : p ∉ ids := h.waiting.not_mem (by rw [hp]; rfl)
  obtain ⟨c', woken, ids', B, hret, hw, -, hr⟩ :=
    returnFreeSlot_spec (c := { s.chan with cells := Function.update s.chan.cells p none })
      (h.waiting.clearCell p) (h.owned.length_lt (B := .free) hi nofun) i
  have hB : Place.cell p ≠ B := by
    rcases hr.place with rfl | ⟨q, hq, rfl⟩
    · nofun
    · rintro ⟨⟩
      exact hpids hq
  have hnone : c'.cells p = none := by
    have := hr.other (.cell p) hB
    simpa [items] using this
  -- the other cells
  have hcells : ∀ q, q ≠ p → items { s.chan with cells := Function.update s.chan.cells p none }
      (.cell q) = s.items (.cell q) := by
    intro q hq
    exact congrArg Option.toList (Function.update_of_ne hq none s.chan.cells)
  refine ⟨c', woken, ids', hret, hnone, ?_⟩
  have hm : Move s.items (State.items { s with chan := c', woken := s.woken ++ woken.toList })
      (.cell p) B i := by
    refine ⟨hB, ?_, ?_, fun P hA hPB => ?_⟩
    · simp [State.items, hcell, hnone]
    · rcases hr.place with rfl | ⟨q, hq, rfl⟩
      · exact hr.into
      · have hqp : q ≠ p := fun hqp => hB (congrArg Place.cell hqp.symm)
        rw [← hcells q hqp]
        exact hr.into
    · cases P with
      | free => exact hr.other .free hPB
      | ready => exact hr.other .ready hPB
      | cell q =>
        rw [← hcells q fun hq => hA (congrArg Place.cell hq)]
        exact hr.other (.cell q) hPB
      | taken q | written q | unread | emptied => rfl
  have hfull : (Place.cell p).full = B.full := by
    rcases hr.place with rfl | ⟨q, -, rfl⟩ <;> rfl
  refine ⟨?_, hw, ?_, ?_, h.fault⟩
  · show Owned N _ c'.slots c'.receiverDropped
    rw [congrArg Channel.slots hr.frame, congrArg Channel.receiverDropped hr.frame]
    exact h.owned.carry hm hfull
  · show Live c'.numSenders s.senders live
    rw [congrArg Channel.numSenders hr.frame]
    exact h.live
  · exact (congrArg Channel.receiverDropped hr.frame).trans h.gone

/-- The receiver gives back the index of the slot it read. -/
theorem SlotsInv.returnRead (h : SlotsInv N s ids live) (hrec : s.receiver = .returnSlot i m) :
    ∃ chan woken ids', s.chan.returnFreeSlot N i = some (chan, woken) ∧
      SlotsInv N { s with
        receiver := .idle, chan := chan, woken := s.woken ++ woken.toList
        received := s.received ++ [m] } ids' live := by
  have hi : i ∈ s.items .emptied := by simp [State.items, hrec, Receiver.emptied]
  obtain ⟨c', woken, ids', B, hret, hw, -, hr⟩ :=
    returnFreeSlot_spec h.waiting (h.owned.length_lt (B := .free) hi nofun) i
  refine ⟨c', woken, ids', hret, ?_⟩
  have hm : Move s.items (State.items { s with
      receiver := .idle, chan := c', woken := s.woken ++ woken.toList
      received := s.received ++ [m] }) .emptied B i := by
    refine ⟨?_, ?_, ?_, fun P hA hPB => ?_⟩
    · rcases hr.place with rfl | ⟨q, -, rfl⟩ <;> nofun
    · simp [State.items, hrec, Receiver.emptied]
    · rcases hr.place with rfl | ⟨q, -, rfl⟩ <;> exact hr.into
    · cases P with
      | free => exact hr.other .free hPB
      | ready => exact hr.other .ready hPB
      | cell q => exact hr.other (.cell q) hPB
      | unread => simp [State.items, hrec, Receiver.unread]
      | emptied => exact absurd rfl hA
      | taken q | written q => rfl
  have hfull : Place.emptied.full = B.full := by
    rcases hr.place with rfl | ⟨q, -, rfl⟩ <;> rfl
  refine ⟨?_, hw, ?_, ?_, h.fault⟩
  · show Owned N _ c'.slots c'.receiverDropped
    rw [congrArg Channel.slots hr.frame, congrArg Channel.receiverDropped hr.frame]
    exact h.owned.carry hm hfull
  · show Live c'.numSenders s.senders live
    rw [congrArg Channel.numSenders hr.frame]
    exact h.live
  · exact (congrArg Channel.receiverDropped hr.frame).trans (h.gone.trans (by rw [hrec]; rfl))

/-- The send future is gone. -/
theorem SlotsInv.finish (h : SlotsInv N s ids live) {out : Outcome}
    (hp : s.senders p = .returnSlot m out) (hcell : s.chan.cells p = none) :
    SlotsInv N (s.finish p m out) ids live := by
  have hpids : p ∉ ids := h.waiting.not_mem (by rw [hp]; rfl)
  have ht : SlotsInv N { s with chan := { s.chan with waitQueue := s.chan.waitQueue.take p } }
      ids live := ⟨h.owned, h.waiting.take hpids hcell, h.live, h.gone, h.fault⟩
  have hfut : ∀ st : Sender T, s.chan.cells p ≠ none → st.inFuture = true :=
    fun st hc => absurd hcell hc
  cases out with
  | cancelled =>
    exact ht.setSender (by simp [hp, Sender.taken]) (by simp [hp, Sender.written])
      (fun hin => absurd hin hpids) (hfut _) (by simp [hp, Sender.isLive])
  | closed =>
    refine SlotsInv.ret ?_ _
    exact ht.setSender (by simp [hp, Sender.taken]) (by simp [hp, Sender.written])
      (fun hin => absurd hin hpids) (hfut _) (by simp [hp, Sender.isLive])
  | granted j =>
    exact ht.setSender (by simp [hp, Sender.taken]) (by simp [hp, Sender.written])
      (fun hin => absurd hin hpids) (hfut _) (by simp [hp, Sender.isLive])

/-! ## Clones and drops -/

/-- `Sender::clone` -/
theorem SlotsInv.clone (h : SlotsInv N s ids live) {q : Nat} (hq : s.senders q = .absent) :
    SlotsInv N { s.setSender q .idle with
      chan := { s.chan with numSenders := s.chan.numSenders + 1 } } ids (q :: live) where
  owned := by
    have hitems : (s.setSender q .idle).items = s.items :=
      setSender_items (by rw [hq]; rfl) (by rw [hq]; rfl)
    exact hitems ▸ h.owned
  waiting := h.waiting.setSender_of_not_inFuture (by rw [hq]; rfl)
  live := h.live.clone (by rw [hq]; rfl) rfl
  gone := h.gone
  fault := h.fault

/-- `Sender::drop` -/
theorem SlotsInv.dropSender (h : SlotsInv N s ids live) (hp : s.senders p = .idle) {n : Nat}
    (hn : s.chan.numSenders = n + 1) {st : Sender T} (ht : st.taken = none)
    (hw : st.written = none) (hl : st.isLive = false) :
    SlotsInv N { s.setSender p st with chan := { s.chan with numSenders := n } } ids
      (live.erase p) where
  owned := by
    have hitems : (s.setSender p st).items = s.items :=
      setSender_items (by rw [hp, ht]; rfl) (by rw [hp, hw]; rfl)
    exact hitems ▸ h.owned
  waiting := h.waiting.setSender_of_not_inFuture (by rw [hp]; rfl)
  live := (hn ▸ h.live).drop (by rw [hp]; rfl) hl
  gone := h.gone
  fault := h.fault

/-! ## Steps -/

/-- A poll of a send future. -/
theorem SlotsInv.poll (h : SlotsInv N s ids live) {polled : Option Waker} (waker : Waker)
    (hp : s.senders p = .sending m polled) :
    ∃ ids', SlotsInv N (Channel.poll s p waker m) ids' live := by
  -- whatever the poll answers, the sender keeps waiting or goes to the dropper
  have hmove : ∀ st : Sender T, st.taken = none → st.written = none → st.mayWait = true →
      st.isLive = true → SlotsInv N (s.setSender p st) ids live := fun st ht hw hm hl =>
    h.setSender (by rw [ht, hp]; rfl) (by rw [hw, hp]; rfl) (fun _ => hm)
      (fun _ => Sender.inFuture_of_mayWait hm) (by rw [hl, hp]; rfl)
  unfold Channel.poll
  cases hd : s.chan.receiverDropped with
  | true => exact ⟨ids, hmove _ rfl rfl rfl rfl⟩
  | false =>
    cases hlink : s.chan.waitQueue.links p with
    | some link =>
      have hst : s.chan.waitQueue.status p = some (link.val, link.isPopped) := by
        simp [WaitQueue.status, WaitQueue.statusOf, hlink]
      cases hpop : link.isPopped with
      | false => exact ⟨ids, by simpa [hpop] using hmove (.sending m (some waker)) rfl rfl rfl rfl⟩
      | true =>
        rw [hpop] at hst
        refine ⟨ids, ?_⟩
        simp only [hpop, Bool.false_eq_true, if_true, if_false]
        cases hcell : s.chan.cells p with
        | some slot =>
          exact h.takeCell hcell (by rw [hp]; rfl) rfl (by rw [hp]; rfl) (by rw [hp]; rfl)
        | none =>
          -- popped with an empty cell: only the drop of the receiver does that
          have hpids := h.waiting.not_mem_of_popped hst
          have hs := hmove (.unlink m .closed) rfl rfl rfl rfl
          have hcells : Function.update s.chan.cells p none = s.chan.cells :=
            Function.update_eq_self_iff.mpr hcell.symm
          rw [hcells]
          exact ⟨hs.owned, hs.waiting.take hpids hcell, hs.live, hs.gone, hs.fault⟩
    | none =>
      simp only [Bool.false_eq_true, if_false]
      split
      · have hs := hmove (.sending m (some waker)) rfl rfl rfl rfl
        refine ⟨ids ++ [p], hs.owned, hs.waiting.insert_push hlink ?_ waker, hs.live, hs.gone,
          hs.fault⟩
        rw [setSender_self]
        rfl
      · rename_i hempty
        have hne : s.chan.freeq ≠ [] := by
          intro hnil
          exact hempty (by simp [hnil])
        have hlast := List.getLast?_eq_some_getLast hne
        rw [hlast]
        exact ⟨ids, h.takeFree (perm_cons_dropLast hlast) (by rw [hp]; rfl) rfl (by rw [hp]; rfl)
          (fun _ => rfl) (fun _ => rfl) (by rw [hp]; rfl)⟩

/-- **A critical section of a sender.** -/
theorem SlotsInv.senderStep (h : SlotsInv N s ids live)
    (hs : Channel.senderStep N s p = some s') : ∃ ids', SlotsInv N s' ids' live := by
  unfold Channel.senderStep at hs
  cases hp : s.senders p with
  | absent | idle | sending m' w | dropped => rw [hp] at hs; cases hs
  | tryWaitQueue m' =>
    have hplain : (s.senders p).plain = true := by rw [hp]; rfl
    simp only [hp] at hs
    split at hs <;> cases hs
    · exact ⟨ids, (h.setPlain hplain rfl).ret _⟩
    · exact ⟨ids, h.setPlain hplain rfl⟩
  | tryClosed m' =>
    have hplain : (s.senders p).plain = true := by rw [hp]; rfl
    simp only [hp] at hs
    split at hs <;> cases hs
    · exact ⟨ids, (h.setPlain hplain rfl).ret _⟩
    · exact ⟨ids, h.setPlain hplain rfl⟩
  | tryPop m' =>
    simp only [hp] at hs
    split at hs <;> cases hs
    · rename_i idx freeq hfree
      have hp' : (s.senders p).inFuture = false := by rw [hp]; rfl
      -- no call of `try_send` is in line, and its cell is empty
      have hw : p ∉ ids := h.waiting.not_mem (by rw [hp]; rfl)
      exact ⟨ids, h.takeFree (hfree ▸ List.Perm.refl _) (by rw [hp]; rfl) rfl (by rw [hp]; rfl)
        (fun hin => absurd hin hw)
        (fun hc => absurd (h.waiting.cell_none_of_not_inFuture hp') hc) (by rw [hp]; rfl)⟩
    · exact ⟨ids, (h.setPlain (by rw [hp]; rfl) rfl).ret _⟩
  | unlink m' out =>
    -- with or without a link, the dropper goes on to the cell
    have hmove : ∀ {s : State T} {ids : List Nat}, SlotsInv N s ids live →
        s.senders p = .unlink m' out → p ∉ ids →
        SlotsInv N (s.setSender p (.returnSlot m' out)) ids live := by
      intro s ids h hp hpids
      exact h.setSender (by rw [hp]; cases out <;> rfl) (by rw [hp]; rfl)
        (fun hin => absurd hin hpids) (fun _ => rfl) (by rw [hp]; rfl)
    simp only [hp] at hs
    cases hlink : s.chan.waitQueue.links p with
    | some link =>
      have hst : s.chan.waitQueue.status p = some (link.val, link.isPopped) := by
        simp [WaitQueue.status, WaitQueue.statusOf, hlink]
      have hnot : p ∉ ids.erase p := h.waiting.represents.nodup.not_mem_erase
      simp only [hlink, Option.some.injEq] at hs
      subst hs
      have hr : SlotsInv N { s with
          chan := { s.chan with waitQueue := s.chan.waitQueue.remove p } } (ids.erase p) live :=
        ⟨h.owned, h.waiting.remove hst, h.live, h.gone, h.fault⟩
      exact ⟨ids.erase p, hmove hr hp hnot⟩
    | none =>
      have hnot : p ∉ ids := by
        intro hin
        obtain ⟨l, hl⟩ := h.waiting.represents.linked.exists hin
        rw [hlink] at hl
        cases hl
      simp only [hlink, Option.some.injEq] at hs
      subst hs
      exact ⟨ids, hmove h hp hnot⟩
  | returnSlot m' out =>
    simp only [hp] at hs
    cases hcell : s.chan.cells p with
    | none =>
      simp only [hcell, Option.some.injEq] at hs
      subst hs
      exact ⟨ids, h.finish hp hcell⟩
    | some slot =>
      obtain ⟨chan, woken, ids', hret, hnone, hs₁⟩ := h.returnCell hp hcell
      simp only [hcell, hret, Option.some.injEq] at hs
      subst hs
      exact ⟨ids', hs₁.finish hp hnone⟩
  | write idx m' =>
    have hidx := h.owned.stored (.taken p) idx (by simp [State.items, hp, Sender.taken])
    simp only [hp] at hs
    split at hs <;> cases hs
    · exact ⟨ids, h.write hp⟩
    · rename_i hslot
      rw [hslot] at hidx
      -- an index that was taken is the one of an empty slot
      cases hidx
  | push idx m' =>
    have hidx : idx ∈ s.items (.written p) := by simp [State.items, hp, Sender.written]
    -- `idx` is not in `readyq`, which therefore has room
    have hlen : s.chan.readyq.length < N := h.owned.length_lt (B := .ready) hidx (by simp)
    simp only [hp] at hs
    rw [if_pos hlen] at hs
    cases hs
    exact ⟨ids, (h.push hp).congr rfl rfl rfl rfl⟩
  | wake m' =>
    simp only [hp, Option.some.injEq] at hs
    subst hs
    have hw : SlotsInv N s.wakeReceiver ids live := h.congr rfl rfl rfl rfl
    have hp : s.wakeReceiver.senders p = .wake m' := hp
    exact ⟨ids, (hw.setPlain (by rw [hp]; rfl) rfl).ret _⟩
  | dropWake =>
    simp only [hp, Option.some.injEq] at hs
    subst hs
    have hw : SlotsInv N s.wakeReceiver ids live := h.congr rfl rfl rfl rfl
    have hp : s.wakeReceiver.senders p = .dropWake := hp
    exact ⟨ids, hw.setSender_of_not_inFuture (by rw [hp]; rfl) (by rw [hp]; rfl) (by rw [hp]; rfl)
      (by rw [hp]; rfl)⟩

/-- **A critical section of the receiver.** -/
theorem SlotsInv.receiverStep (h : SlotsInv N s ids live)
    (hs : Channel.receiverStep N s = some s') : ∃ ids', SlotsInv N s' ids' live := by
  unfold Channel.receiverStep at hs
  cases hr : s.receiver with
  | idle | dropped => rw [hr] at hs; cases hs
  | pop cx =>
    simp only [hr] at hs
    split at hs <;> cases hs
    · rename_i idx readyq hready
      have hperm : s.chan.readyq.Perm (idx :: readyq) := by rw [hready]
      have htake : SlotsInv N { s with
          receiver := .read idx, chan := { s.chan with readyq := readyq } } ids live :=
        h.takeReady hperm (by rw [hr]; rfl) rfl (by rw [hr]; rfl) (by rw [hr]; rfl)
      exact ⟨ids, htake.congr rfl rfl rfl rfl⟩
    · have hclosed : SlotsInv N { s with receiver := .isClosed cx } ids live :=
        h.setReceiver (by rw [hr]; rfl) (by rw [hr]; rfl) (by rw [hr]; rfl)
      exact ⟨ids, hclosed.congr rfl rfl rfl rfl⟩
  | read idx =>
    have hidx := h.owned.stored .unread idx (by simp [State.items, hr, Receiver.unread])
    simp only [hr] at hs
    split at hs <;> cases hs
    · exact ⟨ids, h.read hr⟩
    · rename_i hslot
      rw [hslot] at hidx
      -- an index that was popped is the one of a written slot
      cases hidx
  | returnSlot idx m' =>
    obtain ⟨chan, woken, ids', hret, hs₁⟩ := h.returnRead hr
    simp only [hr, hret, Option.some.injEq] at hs
    subst hs
    exact ⟨ids', hs₁⟩
  | isClosed cx =>
    have hidle : SlotsInv N { s with receiver := .idle } ids live :=
      h.setReceiver (by rw [hr]; rfl) (by rw [hr]; rfl) (by rw [hr]; rfl)
    simp only [hr] at hs
    split at hs <;> cases hs
    · exact ⟨ids, hidle.congr rfl rfl rfl rfl⟩
    · exact ⟨ids, hidle.congr rfl rfl rfl rfl⟩
  | drain =>
    simp only [hr] at hs
    split at hs <;> cases hs
    · rename_i idx hlast
      exact ⟨ids, h.takeReady (perm_cons_dropLast hlast) (by rw [hr]; rfl) rfl (by rw [hr]; rfl)
        (by rw [hr]; rfl)⟩
    · exact ⟨ids, h.setReceiver (by rw [hr]; rfl) (by rw [hr]; rfl) (by rw [hr]; rfl)⟩
  | drainRead idx =>
    have hidx := h.owned.stored .unread idx (by simp [State.items, hr, Receiver.unread])
    simp only [hr] at hs
    split at hs <;> cases hs
    · exact ⟨ids, (h.drainRead hr).congr rfl rfl rfl rfl⟩
    · rename_i hslot
      rw [hslot] at hidx
      cases hidx
  | wakeAll =>
    simp only [hr] at hs
    cases ids with
    | nil =>
      rw [h.waiting.represents.pop_nil] at hs
      cases hs
      exact ⟨[], h.setReceiver (by rw [hr]; rfl) (by rw [hr]; rfl) (by rw [hr]; rfl)⟩
    | cons q ids =>
      obtain ⟨waker, w', hpop, -, hw⟩ := h.waiting.pop_cons
      have hsame : SlotsInv N { s with receiver := .wakeAll } (q :: ids) live :=
        h.setReceiver (by rw [hr]) (by rw [hr]) (by rw [hr])
      rw [hpop] at hs
      cases hs
      exact ⟨ids, hsame.owned, hw, hsame.live, hsame.gone, hsame.fault⟩

/-- **Every step keeps the invariant.** -/
theorem SlotsInv.step (h : SlotsInv N s ids live) {a : Action T}
    (hs : Channel.step N s a = some s') : ∃ ids' live', SlotsInv N s' ids' live' := by
  have hcall : ∀ {p : Nat} {st : Sender T}, SlotsInv N (s.setSender p st) ids live →
      ∀ calls, SlotsInv N { s.setSender p st with calls := calls } ids live :=
    fun h _ => h.congr rfl rfl rfl rfl
  cases a with
  | trySend p val =>
    simp only [Channel.step] at hs
    cases hp : s.senders p with
    | idle =>
      rw [hp] at hs
      cases hs
      exact ⟨ids, live, hcall (h.setPlain (by rw [hp]; rfl) rfl) _⟩
    | _ => rw [hp] at hs; cases hs
  | send p val =>
    simp only [Channel.step] at hs
    cases hp : s.senders p with
    | idle =>
      rw [hp] at hs
      cases hs
      exact ⟨ids, live, hcall (h.setSender (by rw [hp]; rfl) (by rw [hp]; rfl) (fun _ => rfl)
        (fun _ => rfl) (by rw [hp]; rfl)) _⟩
    | _ => rw [hp] at hs; cases hs
  | poll p waker =>
    simp only [Channel.step] at hs
    cases hp : s.senders p with
    | sending m polled =>
      rw [hp] at hs
      cases hs
      obtain ⟨ids', h'⟩ := h.poll waker hp
      exact ⟨ids', live, h'⟩
    | _ => rw [hp] at hs; cases hs
  | cancel p =>
    simp only [Channel.step] at hs
    cases hp : s.senders p with
    | sending m polled =>
      rw [hp] at hs
      cases hs
      exact ⟨ids, live, h.setSender (by rw [hp]; rfl) (by rw [hp]; rfl) (fun _ => rfl)
        (fun _ => rfl) (by rw [hp]; rfl)⟩
    | _ => rw [hp] at hs; cases hs
  | clone p q =>
    simp only [Channel.step] at hs
    cases hp : s.senders p with
    | idle =>
      cases hq : s.senders q with
      | absent =>
        rw [hp, hq] at hs
        cases hs
        exact ⟨ids, q :: live, h.clone hq⟩
      | _ => rw [hp, hq] at hs; cases hs
    | _ => rw [hp] at hs; cases hs
  | dropSender p =>
    simp only [Channel.step] at hs
    cases hp : s.senders p with
    | idle =>
      rw [hp] at hs
      have hin : p ∈ live := (h.live.mem p).mpr (by rw [hp]; rfl)
      have hcount := h.live.count
      cases hn : s.chan.numSenders with
      | zero =>
        -- the sender itself is counted
        rw [hn] at hcount
        rw [List.length_eq_zero_iff.mp hcount.symm] at hin
        cases hin
      | succ n =>
        rw [hn] at hs
        cases n with
        | zero =>
          cases hs
          exact ⟨ids, live.erase p, h.dropSender hp hn rfl rfl rfl⟩
        | succ n =>
          cases hs
          exact ⟨ids, live.erase p, h.dropSender hp hn rfl rfl rfl⟩
    | _ => rw [hp] at hs; cases hs
  | sender p =>
    obtain ⟨ids', h'⟩ := h.senderStep hs
    exact ⟨ids', live, h'⟩
  | tryRecv =>
    simp only [Channel.step] at hs
    cases hr : s.receiver with
    | idle =>
      have hpop : SlotsInv N { s with receiver := .pop none } ids live :=
        h.setReceiver (by rw [hr]; rfl) (by rw [hr]; rfl) (by rw [hr]; rfl)
      rw [hr] at hs
      cases hs
      exact ⟨ids, live, hpop.congr rfl rfl rfl rfl⟩
    | _ => rw [hr] at hs; cases hs
  | recv waker =>
    simp only [Channel.step] at hs
    cases hr : s.receiver with
    | idle =>
      have hpop : SlotsInv N { s with receiver := .pop (some (waker, (s.register waker).woken.length)) }
          ids live := h.setReceiver (by rw [hr]; rfl) (by rw [hr]; rfl) (by rw [hr]; rfl)
      rw [hr] at hs
      cases hs
      refine ⟨ids, live, hpop.congr ?_ ?_ rfl ?_⟩ <;> unfold State.register <;> split <;> rfl
    | _ => rw [hr] at hs; cases hs
  | dropReceiver =>
    simp only [Channel.step] at hs
    cases hr : s.receiver with
    | idle =>
      -- the flag is set here, and the queues are drained afterwards
      have hdrain : SlotsInv N { s with receiver := .pop none } ids live :=
        h.setReceiver (by rw [hr]; rfl) (by rw [hr]; rfl) (by rw [hr]; rfl)
      rw [hr] at hs
      cases hs
      exact ⟨ids, live, hdrain.owned.lose (fun P => by cases P <;> exact List.Sublist.refl _)
        (fun _ _ _ => rfl), hdrain.waiting, hdrain.live, rfl, hdrain.fault⟩
    | _ => rw [hr] at hs; cases hs
  | receiver =>
    obtain ⟨ids', h'⟩ := h.receiverStep hs
    exact ⟨ids', live, h'⟩

/-- After `split` everything is in `freeq`. -/
theorem slotsInv_init (hN : N ≤ 255) : SlotsInv N (machine T N).init [] [0] where
  owned := by
    have hmod : N % 256 = N := Nat.mod_eq_of_lt (Nat.lt_succ_of_le hN)
    have hfree : ∀ P, ∀ i ∈ (machine T N).init.items P, P = .free ∧ i < N := by
      intro P i hi
      cases P with
      | free =>
        have hi : i ∈ List.range (N % 256) := hi
        rw [hmod] at hi
        exact ⟨rfl, List.mem_range.mp hi⟩
      | taken p | written p =>
        have hidle : (machine T N).init.senders p = .idle ∨
            (machine T N).init.senders p = .absent := by
          by_cases hp : p = 0
          · exact Or.inl (if_pos hp)
          · exact Or.inr (if_neg hp)
        rcases hidle with h | h <;> simp [State.items, h, Sender.taken, Sender.written] at hi
      | ready | cell p | unread | emptied => cases hi
    refine ⟨fun P i hi => (hfree P i hi).2, ⟨fun P => ?_, fun P Q i hP hQ => ?_⟩,
      fun _ i hi => ⟨.free, ?_⟩, fun P i hi => ?_⟩
    · cases P with
      | free => exact List.nodup_range
      | taken p | written p => exact Option.toList_nodup _
      | ready | cell p | unread | emptied => exact List.nodup_nil
    · rw [(hfree P i hP).1, (hfree Q i hQ).1]
    · show i ∈ List.range (N % 256)
      rw [hmod]
      exact List.mem_range.mpr hi
    · rw [(hfree P i hi).1]
      rfl
  waiting := ⟨WaitQueue.new_represents, fun _ _ _ => nofun, fun _ => nofun, fun _ _ => nofun⟩
  live := by
    refine ⟨List.nodup_singleton 0, fun p => ?_, rfl⟩
    show p ∈ [0] ↔ (if p = 0 then Sender.idle else Sender.absent : Sender T).isLive = true
    by_cases hp : p = 0 <;> simp [hp, Sender.isLive]
  gone := rfl
  fault := rfl

theorem slotsInv_reachable (hN : N ≤ 255) (h : (machine T N).Reachable s) :
    ∃ ids live, SlotsInv N s ids live :=
  h.invariant (P := fun s => ∃ ids live, SlotsInv N s ids live) ⟨[], [0], slotsInv_init hN⟩
    fun _ _ _ _ ⟨_, _, hinv⟩ hs => hinv.step hs

/--
**Slot ownership.** Until the receiver is dropped every index is in exactly one place, whatever
the senders and the receiver do; and no unchecked operation ever goes wrong.
-/
theorem slot_ownership (hN : N ≤ 255) (h : (machine T N).Reachable s) :
    (s.chan.receiverDropped = false →
      ∀ i < N, ∃ P, (s.items P).count i = 1 ∧ ∀ Q, Q ≠ P → i ∉ s.items Q) ∧
    s.fault = false := by
  obtain ⟨ids, live, hinv⟩ := slotsInv_reachable hN h
  refine ⟨fun hd i hi => ?_, hinv.fault⟩
  obtain ⟨P, hP⟩ := hinv.owned.cover hd i hi
  refine ⟨P, List.count_eq_one_of_mem (hinv.owned.exclusive.nodup P) hP, fun Q hne hQ => ?_⟩
  exact hne (hinv.owned.exclusive.unique Q P i hQ hP)

/-- A sender waits for the only index, and the receiver hands it over. -/
def handOver : List (Action Nat) :=
  [.clone 0 1, .trySend 0 5] ++ List.replicate 6 (.sender 0) ++
    [.send 1 7, .poll 1 3, .tryRecv] ++ List.replicate 3 .receiver

theorem slot_ownership_run :
    ∃ s, (machine Nat 1).exec (machine Nat 1).init handOver = some s ∧
      (s.chan.receiverDropped, s.items (.cell 1), s.woken) = (false, [0], [3]) ∧
      (∃ P, (s.items P).count 0 = 1 ∧ ∀ Q, Q ≠ P → 0 ∉ s.items Q) ∧ s.fault = false := by
  have hrun : ((machine Nat 1).exec (machine Nat 1).init handOver).map
      (fun s => (s.chan.receiverDropped, s.items (.cell 1), s.woken)) = some (false, [0], [3]) := by
    decide +kernel
  obtain ⟨s, hs, hobs⟩ := Option.map_eq_some_iff.mp hrun
  obtain ⟨howned, hfault⟩ :=
    slot_ownership (N := 1) (by decide) (Machine.reachable_iff_exec.mpr ⟨handOver, hs⟩)
  exact ⟨s, hs, hobs, howned (congrArg Prod.fst hobs) 0 (by decide), hfault⟩

end Rticx.AsyncRt.Channel
