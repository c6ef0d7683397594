import Rticx.AsyncRt.ChannelDrain
import Rticx.AsyncRt.ChannelWaiters

/-!
# Splitting a channel again

When all endpoints are gone, `split` may be called again. It refills `freeq` and starts
`num_senders` over, and relies on the drops for the rest; but no drop takes `receiver_dropped` back,
so the new senders are told that there is no receiver.
-/

namespace Rticx.AsyncRt.Channel

open Lib

variable {T : Type} {N : Nat}

/-! ## Endpoints and what they show -/

/-- The endpoints that `split` returns, on a channel that may have been used before. -/
def start (N : Nat) (c : Channel (Msg T)) : State T where
  chan := c.split N
  senders := fun p => if p = 0 then .idle else .absent
  receiver := .idle
  fault := false
  calls := []
  results := []
  pushed := []
  received := []
  errors := []
  discarded := []
  pushedAtPop := 0
  woken := []
  parked := none

/-- A channel all of whose endpoints were dropped. -/
inductive Used (N : Nat) : Channel (Msg T) → Prop where
  | first {as : List (Action T)} {s : State T} :
    (machine T N).exec (start N new) as = some s → s.Finished → Used N s.chan
  | again {c : Channel (Msg T)} {as : List (Action T)} {s : State T} : Used N c →
    (machine T N).exec (start N c) as = some s → s.Finished → Used N s.chan

/-- What the operations on the endpoints return, and whom they wake. -/
structure Observation (T : Type) where
  /-- `Sender::is_closed`, `is_full` and `is_empty` -/
  sender : Bool × Bool × Bool
  /-- `Receiver::is_closed`, `is_full` and `is_empty` -/
  receiver : Bool × Bool × Bool
  /-- the calls of senders that returned, with the value of an error -/
  results : List (Nat × Except T Unit)
  received : List T
  errors : List ReceiveError
  pending : Nat → Bool
  woken : List Waker

/-- `TrySendError` and `NoReceiver`, as far as the value goes. -/
def SendError.handedBack (r : Except (SendError (Msg T)) Unit) : Except T Unit :=
  r.mapError fun e => e.val.val

def observe (N : Nat) (s : State T) : Observation T where
  sender := (s.chan.receiverDropped, s.chan.freeq.isEmpty, s.chan.freeq.length == N)
  receiver := (s.chan.numSenders == 0, s.chan.readyq.length == N, s.chan.readyq.isEmpty)
  results := s.results.map fun r => (r.1, SendError.handedBack r.2)
  received := s.received.map Msg.val
  errors := s.errors
  pending p :=
    match s.senders p with
    | .sending _ _ => true
    | _ => false
  woken := s.woken

/-- No sequence of operations tells the two states apart. -/
def Alike (N : Nat) (s t : State T) : Prop :=
  ∀ as, ((machine T N).exec s as).map (observe N) = ((machine T N).exec t as).map (observe N)

variable {s s' : State T} {a : Action T} {p : Nat} {c : Channel (Msg T)}

theorem start_new : start N (new : Channel (Msg T)) = (machine T N).init := rfl

/-! ## The flag of the receiver -/

/-- `receiver_dropped` is set when the drop of the receiver begins, or before. -/
def FlagSet (s : State T) : Prop := s.receiver.gone = true → s.chan.receiverDropped = true

/-- A step of others does nothing to it. -/
theorem FlagSet.congr (h : FlagSet s) (hreceiver : s'.receiver.gone = s.receiver.gone)
    (hflag : s'.chan.receiverDropped = s.chan.receiverDropped) : FlagSet s' := by
  intro hg
  rw [hflag]
  exact h (hreceiver ▸ hg)

theorem FlagSet.poll (h : FlagSet s) {m : Msg T} {polled : Option Waker} (waker : Waker)
    (hp : s.senders p = .sending m polled) : FlagSet (Channel.poll s p waker m) := by
  obtain ⟨st, -, -, chan, fault, heq, -, -, hflag⟩ := poll_frame waker hp
  rw [heq]
  exact h.congr rfl hflag

theorem FlagSet.finish (h : FlagSet s) (m : Msg T) (out : Outcome) :
    FlagSet (s.finish p m out) := by
  cases out <;> exact h.congr rfl rfl

theorem FlagSet.senderStep (h : FlagSet s) (hs : Channel.senderStep N s p = some s') :
    FlagSet s' := by
  unfold Channel.senderStep at hs
  cases hp : s.senders p with
  | absent | idle | sending m w | dropped => rw [hp] at hs; cases hs
  | tryWaitQueue m | tryClosed m | tryPop m | write i m | push i m | unlink m out =>
    simp only [hp] at hs
    split at hs <;> cases hs <;> exact h.congr rfl rfl
  | returnSlot m out =>
    simp only [hp] at hs
    split at hs
    · split at hs <;> cases hs
      · rename_i chan woken hret
        have hmid : FlagSet { s with chan := chan, woken := s.woken ++ woken.toList } :=
          h.congr rfl (by rw [returnFreeSlot_frame hret])
        exact hmid.finish m out
      · exact h.congr rfl rfl
    · cases hs
      exact h.finish m out
  | wake m | dropWake =>
    simp only [hp] at hs
    cases hs
    exact h.congr rfl rfl

theorem FlagSet.receiverStep (h : FlagSet s) (hs : Channel.receiverStep N s = some s') :
    FlagSet s' := by
  unfold Channel.receiverStep at hs
  cases hr : s.receiver with
  | idle | dropped => rw [hr] at hs; cases hs
  | returnSlot i m =>
    simp only [hr] at hs
    split at hs <;> cases hs
    · rintro ⟨⟩
    · exact h.congr rfl rfl
  | pop cx | read i | isClosed cx | drain | drainRead i | wakeAll =>
    simp only [hr] at hs
    split at hs <;> cases hs <;> exact h.congr (by simp [hr, Receiver.gone, State.faulted]) rfl

theorem FlagSet.step (h : FlagSet s) (hs : Channel.step N s a = some s') : FlagSet s' := by
  cases a with
  | trySend q val | send q val | cancel q | clone r q =>
    simp only [Channel.step] at hs
    split at hs <;> cases hs
    exact h.congr rfl rfl
  | poll q waker =>
    simp only [Channel.step] at hs
    split at hs <;> cases hs
    rename_i hq
    exact h.poll waker hq
  | dropSender q =>
    simp only [Channel.step] at hs
    split at hs
    · split at hs <;> cases hs <;> exact h.congr rfl rfl
    · cases hs
  | sender q => exact h.senderStep hs
  | tryRecv | recv waker =>
    simp only [Channel.step] at hs
    split at hs <;> cases hs
    rintro ⟨⟩
  | dropReceiver =>
    simp only [Channel.step] at hs
    split at hs <;> cases hs
    exact fun _ => rfl
  | receiver => exact h.receiverStep hs

/-- When all endpoints are dropped, the flag is set, whatever the channel was used for before. -/
theorem receiverDropped_of_finished {as : List (Action T)}
    (h : (machine T N).exec (start N c) as = some s) (hfin : s.Finished) :
    s.chan.receiverDropped = true := by
  have hflag : FlagSet s := Machine.exec_invariant (P := FlagSet)
    (fun _ _ _ hf hs => hf.step hs) (s := start N c) (by rintro ⟨⟩) h
  exact hflag (by rw [hfin.receiver]; rfl)

theorem Used.receiverDropped (h : Used N c) : c.receiverDropped = true := by
  cases h with
  | first hrun hfin => exact receiverDropped_of_finished hrun hfin
  | again _ hrun hfin => exact receiverDropped_of_finished hrun hfin

/-! ## No channel is fresh again -/

/--
**The endpoints of a used channel never behave like those of a new one**: a sender of the new ones
is not closed.
-/
theorem resplit_never_fresh (h : Used N c) : ¬ Alike N (start N c) (start N new) := by
  intro halike
  have hobs := Option.some.inj (halike [])
  have hclosed : c.receiverDropped = false := congrArg (fun o => o.sender.1) hobs
  rw [h.receiverDropped] at hclosed
  cases hclosed

theorem resplit_never_fresh_dropped :
    ∃ s, (machine Nat 1).exec (start 1 new) sentAndDropped = some s ∧
      ¬ Alike 1 (start 1 s.chan) (start 1 new) := by
  obtain ⟨s, hs, hreceiver, hnum⟩ : ∃ s, (machine Nat 1).exec (start 1 new) sentAndDropped = some s ∧
      s.receiver = .dropped ∧ s.chan.numSenders = 0 := by
    have hrun : ((machine Nat 1).exec (start 1 new) sentAndDropped).map
        (fun s => (decide (s.receiver = .dropped), s.chan.numSenders)) = some (true, 0) := by
      decide +kernel
    obtain ⟨s, hs, hobs⟩ := Option.map_eq_some_iff.mp hrun
    simp only [Prod.mk.injEq, decide_eq_true_eq] at hobs
    exact ⟨s, hs, hobs⟩
  have hfin : s.Finished :=
    finished_of_numSenders (N := 1) (by decide)
      (Machine.reachable_iff_exec.mpr ⟨sentAndDropped, hs⟩) hreceiver hnum
  exact ⟨s, hs, resplit_never_fresh (.first hs hfin)⟩

/-- A value is sent, received nowhere and dropped; on the channel that is split again, `try_send`
finds no receiver although there is one. -/
theorem resplit_refuses_send :
    ∃ s, (machine Nat 1).exec (start 1 new) sentAndDropped = some s ∧ s.Finished ∧
      ((machine Nat 1).exec (start 1 s.chan) [.trySend 0 6, .sender 0, .sender 0]).map
          (fun t => (observe 1 t).results.map fun r => r.2.isOk) = some [false] ∧
      ¬ Alike 1 (start 1 s.chan) (start 1 new) := by
  have hrun : ((machine Nat 1).exec (start 1 new) sentAndDropped).map
      (fun s => (decide (s.receiver = .dropped), s.chan.numSenders,
        ((machine Nat 1).exec (start 1 s.chan) [.trySend 0 6, .sender 0, .sender 0]).map
          fun t => (observe 1 t).results.map fun r => r.2.isOk)) =
      some (true, 0, some [false]) := by
    decide +kernel
  obtain ⟨s, hs, hobs⟩ := Option.map_eq_some_iff.mp hrun
  simp only [Prod.mk.injEq, decide_eq_true_eq] at hobs
  obtain ⟨hreceiver, hnum, hresults⟩ := hobs
  have hfin : s.Finished :=
    finished_of_numSenders (N := 1) (by decide)
      (Machine.reachable_iff_exec.mpr ⟨sentAndDropped, hs⟩) hreceiver hnum
  refine ⟨s, hs, hfin, hresults, fun halike => ?_⟩
  have hnew : ((machine Nat 1).exec (start 1 new) [.trySend 0 6, .sender 0, .sender 0]).map
      (fun t => (observe 1 t).results.map fun r => r.2.isOk) = some [] := by decide +kernel
  have hsame := congrArg (Option.map fun o => o.results.map fun r => r.2.isOk)
    (halike [.trySend 0 6, .sender 0, .sender 0])
  simp only [Option.map_map, Function.comp_def] at hsame
  rw [hresults, hnew] at hsame
  cases hsame

/-! ## What is left over -/

theorem waitQueue_eq_new {w : WaitQueue Nat (Waker × Nat)} (hhead : w.head = none)
    (htail : w.tail = none) (hlinks : w.links = fun _ => none) : w = WaitQueue.new := by
  obtain ⟨head, tail, links⟩ := w
  cases hhead
  cases htail
  cases hlinks
  rfl

/-- What `split` does not touch is what the channel brings. -/
theorem split_eq (hready : c.readyq = []) (hslots : c.slots = fun _ => none)
    (hcells : c.cells = fun _ => none) (hwait : c.waitQueue = WaitQueue.new)
    (hflag : c.receiverDropped = true) :
    c.split N =
      { (new : Channel (Msg T)).split N with
        receiverDropped := true, receiverWaker := c.receiverWaker } := by
  obtain ⟨freeq, readyq, receiverWaker, slots, waitQueue, receiverDropped, numSenders, cells⟩ := c
  cases hready
  cases hslots
  cases hcells
  cases hwait
  cases hflag
  rfl

/-- **Only the flag and the waker of the receiver are left over**, unless a value was stranded. -/
theorem split_leftover (hN : N ≤ 255) (hr : (machine T N).Reachable s) (he : Emptied s)
    (hfin : s.Finished) :
    s.chan.split N =
      { (new : Channel (Msg T)).split N with
        receiverDropped := true, receiverWaker := s.chan.receiverWaker } := by
  obtain ⟨ids, live, hi⟩ := slotsInv_reachable hN hr
  have ht := told_reachable hN hr
  have hout : ∀ p, (s.senders p).inFuture = false := by
    intro p
    have hlive := hfin.senders p
    cases hp : s.senders p with
    | absent | dropWake | dropped => rfl
    | _ =>
      rw [hp] at hlive
      cases hlive
  have hready : s.chan.readyq = [] := he (by rw [hfin.receiver]; rfl)
  have hslots : s.chan.slots = fun _ => none :=
    funext ((noneStranded_of_emptied hN hr he).slots hfin)
  have hcells : s.chan.cells = fun _ => none :=
    funext fun p => hi.waiting.cell_none_of_not_inFuture (hout p)
  have hwait : s.chan.waitQueue = WaitQueue.new := by
    have hids : ids = [] := by
      refine List.eq_nil_iff_forall_not_mem.mpr fun p hp => ?_
      have := Sender.inFuture_of_mayWait (hi.waiting.waits p hp)
      rw [hout p] at this
      cases this
    have hlinks : s.chan.waitQueue.links = fun _ => none := by
      funext p
      have hstatus := ht.popped.status_none (hout p)
      simpa [WaitQueue.status, WaitQueue.statusOf] using hstatus
    have hrep := hi.waiting.represents
    rw [hids] at hrep
    exact waitQueue_eq_new hrep.head hrep.tail hlinks
  have hflag : s.chan.receiverDropped = true := hi.gone.trans (by rw [hfin.receiver]; rfl)
  exact split_eq hready hslots hcells hwait hflag

end Rticx.AsyncRt.Channel
