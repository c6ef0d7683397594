import Rticx.AsyncRt.ChannelSlots

/-!
# The receiver misses no wake-up

A poll of `recv` registers its waker, finds `readyq` empty, and finds a sender left; these are
three critical sections, and a push and the wake after it are two more. The waker stays registered
until somebody wakes it, so a wake that comes after the registration is never lost.
-/

namespace Rticx.AsyncRt.Channel

open Lib

variable {T : Type} {N : Nat} {s s' : State T} {p : Nat} {cx : Waker × Nat}

/-! ## What a poll left behind -/

/-- The waker of the poll was woken since it was registered. -/
def Woken (woken : List Waker) (cx : Waker × Nat) : Prop := cx.1 ∈ woken.drop cx.2

/-- Some sender is between its push and its call of `receiver_waker.wake()`. -/
def PushedToWake (senders : Nat → Sender T) : Prop := ∃ p m, senders p = .wake m

/-- Some sender is between its final decrement of `num_senders` and its call of `wake`. -/
def DroppedToWake (senders : Nat → Sender T) : Prop := ∃ p, senders p = .dropWake

/-- The waker of the poll is registered, unless it was woken. -/
structure Registered (s : State T) (cx : Waker × Nat) : Prop where
  since : cx.2 ≤ s.woken.length
  waker : s.chan.receiverWaker = some cx.1 ∨ Woken s.woken cx

/-- Whatever was pushed after the poll, its waker was woken or is about to be. -/
def Alerted (s : State T) (cx : Waker × Nat) : Prop :=
  s.chan.readyq ≠ [] → Woken s.woken cx ∨ PushedToWake s.senders

/-- The same for the drop of the last sender. -/
def Closing (s : State T) (cx : Waker × Nat) : Prop :=
  s.chan.numSenders = 0 → Woken s.woken cx ∨ DroppedToWake s.senders

/-- Wakers woken later change nothing. -/
theorem Woken.append {woken : List Waker} (h : Woken woken cx) (ws : List Waker) :
    Woken (woken ++ ws) cx := by
  unfold Woken at *
  rw [List.drop_append]
  exact List.mem_append_left _ h

/-- **A wake of the registered waker** wakes the poll, if nobody did before. -/
theorem Registered.woken (h : Registered s cx) :
    Woken (s.woken ++ s.chan.receiverWaker.toList) cx := by
  rcases h.waker with hw | hw
  · unfold Woken
    rw [hw, List.drop_append_of_le_length h.since]
    exact List.mem_append_right _ List.mem_cons_self
  · exact hw.append _

/-! ## What a step does to it -/

/-- The sender still has to call `receiver_waker.wake()`. -/
def Sender.toWake : Sender T → Bool
  | .wake _ | .dropWake => true
  | _ => false

/--
A step that leaves the registered waker alone: a push, or the drop of the last sender, is followed
by a wake of the same sender.
-/
structure Quiet (s s' : State T) : Prop where
  waker : s'.chan.receiverWaker = s.chan.receiverWaker
  woken : s.woken <+: s'.woken
  pushed : s'.chan.readyq ≠ [] → s.chan.readyq ≠ [] ∨ PushedToWake s'.senders
  dropped : s'.chan.numSenders = 0 → s.chan.numSenders = 0 ∨ DroppedToWake s'.senders
  toWake : ∀ p, (s.senders p).toWake = true → s'.senders p = s.senders p

/-- A step is quiet, or it wakes the registered waker. -/
def Effect (s s' : State T) : Prop :=
  Quiet s s' ∨ s'.woken = s.woken ++ s.chan.receiverWaker.toList

theorem Quiet.pushedToWake (h : Quiet s s') (hp : PushedToWake s.senders) :
    PushedToWake s'.senders := by
  obtain ⟨p, m, hp⟩ := hp
  exact ⟨p, m, (h.toWake p (by rw [hp]; rfl)).trans hp⟩

theorem Quiet.droppedToWake (h : Quiet s s') (hp : DroppedToWake s.senders) :
    DroppedToWake s'.senders := by
  obtain ⟨p, hp⟩ := hp
  exact ⟨p, (h.toWake p (by rw [hp]; rfl)).trans hp⟩

theorem Quiet.wokenOf (h : Quiet s s') (hw : Woken s.woken cx) : Woken s'.woken cx := by
  obtain ⟨ws, hws⟩ := h.woken
  rw [← hws]
  exact hw.append ws

/-- The waker stays registered until it is woken. -/
theorem Registered.step (h : Registered s cx) (he : Effect s s') : Registered s' cx := by
  rcases he with hq | hw
  · exact ⟨Nat.le_trans h.since hq.woken.length_le, h.waker.imp hq.waker.trans hq.wokenOf⟩
  · refine ⟨?_, Or.inr (hw ▸ h.woken)⟩
    rw [hw, List.length_append]
    exact Nat.le_add_right_of_le h.since

/-- Who pushed after the poll wakes it. -/
theorem Alerted.step (h : Alerted s cx) (hr : Registered s cx) (he : Effect s s') :
    Alerted s' cx := by
  intro hready
  rcases he with hq | hw
  · rcases hq.pushed hready with hold | hnew
    · exact (h hold).imp hq.wokenOf hq.pushedToWake
    · exact Or.inr hnew
  · exact Or.inl (hw ▸ hr.woken)

/-- Who dropped the last sender wakes it. -/
theorem Closing.step (h : Closing s cx) (hr : Registered s cx) (he : Effect s s') :
    Closing s' cx := by
  intro hnum
  rcases he with hq | hw
  · rcases hq.dropped hnum with hold | hnew
    · exact (h hold).imp hq.wokenOf hq.droppedToWake
    · exact Or.inr hnew
  · exact Or.inl (hw ▸ hr.woken)

/-! ## The steps of the senders -/

/-- A sender that has no wake to call goes on, and the queues of the receiver do not change. -/
theorem Effect.setSender (hp : (s.senders p).toWake = false) {st : Sender T}
    (hsenders : s'.senders = Function.update s.senders p st)
    (hwaker : s'.chan.receiverWaker = s.chan.receiverWaker)
    (hready : s'.chan.readyq = s.chan.readyq) (hnum : s'.chan.numSenders = s.chan.numSenders)
    (hwoken : s.woken <+: s'.woken) : Effect s s' := by
  refine Or.inl ⟨hwaker, hwoken, fun h => Or.inl (hready ▸ h), fun h => Or.inl (hnum ▸ h),
    fun q hq => ?_⟩
  have hqp : q ≠ p := by
    rintro rfl
    rw [hp] at hq
    cases hq
  rw [hsenders, Function.update_of_ne hqp]

/-- Nothing changes that concerns the receiver. -/
theorem Effect.refl (hsenders : s'.senders = s.senders) (hchan : s'.chan = s.chan)
    (hwoken : s'.woken = s.woken) : Effect s s' :=
  Or.inl ⟨by rw [hchan], hwoken ▸ List.prefix_refl _, fun h => Or.inl (hchan ▸ h), fun h => Or.inl (hchan ▸ h),
    fun _ _ => by rw [hsenders]⟩

/-- The end of a send future. -/
theorem Effect.finish (hp : (s.senders p).toWake = false) {c : Channel (Msg T)} {woken : List Waker}
    (hc : c = { s.chan with freeq := c.freeq, waitQueue := c.waitQueue, cells := c.cells })
    (hwoken : s.woken <+: woken) (m : Msg T) (out : Outcome) :
    Effect s (State.finish { s with chan := c, woken := woken } p m out) := by
  rw [hc]
  cases out <;> exact .setSender hp rfl rfl rfl rfl hwoken

theorem poll_effect {polled : Option Waker} {m : Msg T} (hp : s.senders p = .sending m polled)
    (waker : Waker) : Effect s (Channel.poll s p waker m) := by
  have hw : (s.senders p).toWake = false := by rw [hp]; rfl
  unfold Channel.poll
  split
  · exact .setSender hw rfl rfl rfl rfl (List.prefix_refl _)
  · split
    · split <;> exact .setSender hw rfl rfl rfl rfl (List.prefix_refl _)
    · split
      · exact .setSender hw rfl rfl rfl rfl (List.prefix_refl _)
      · split
        · exact .setSender hw rfl rfl rfl rfl (List.prefix_refl _)
        · exact .refl rfl rfl rfl

theorem senderStep_effect (hs : Channel.senderStep N s p = some s') : Effect s s' := by
  unfold Channel.senderStep at hs
  cases hp : s.senders p with
  | absent | idle | sending m w | dropped => rw [hp] at hs; cases hs
  | tryWaitQueue m | tryClosed m | tryPop m | write i m =>
    have hw : (s.senders p).toWake = false := by rw [hp]; rfl
    simp only [hp] at hs
    split at hs <;> cases hs <;>
      first
      | exact .setSender hw rfl rfl rfl rfl (List.prefix_refl _)
      | exact .refl rfl rfl rfl
  | unlink m out =>
    have hw : (s.senders p).toWake = false := by rw [hp]; rfl
    simp only [hp] at hs
    split at hs <;> cases hs <;> exact .setSender hw rfl rfl rfl rfl (List.prefix_refl _)
  | returnSlot m out =>
    have hw : (s.senders p).toWake = false := by rw [hp]; rfl
    simp only [hp] at hs
    split at hs
    · split at hs <;> cases hs
      · rename_i hret
        have hframe := returnFreeSlot_frame hret
        exact .finish hw hframe (List.prefix_append ..) m out
      · exact .refl rfl rfl rfl
    · cases hs
      exact .finish hw rfl (List.prefix_refl _) m out
  | push i m =>
    simp only [hp] at hs
    split at hs <;> cases hs
    · -- the sender that pushed is the one that wakes
      refine Or.inl ⟨rfl, List.prefix_refl _, fun _ => Or.inr ⟨p, m, Function.update_self ..⟩,
        Or.inl, fun q hq => ?_⟩
      have hqp : q ≠ p := by
        rintro rfl
        rw [hp] at hq
        cases hq
      exact Function.update_of_ne hqp ..
    · exact .refl rfl rfl rfl
  | wake m | dropWake =>
    simp only [hp] at hs
    cases hs
    exact Or.inr rfl

/-! ## The steps of the receiver -/

/-- `receiver_waker.register(new_waker)` keeps the old waker, or wakes it. -/
theorem register_effect (waker : Waker) : Effect s (s.register waker) := by
  unfold State.register
  split
  · exact .refl rfl rfl rfl
  · exact Or.inr rfl

theorem register_registered (waker : Waker) :
    (s.register waker).chan.receiverWaker = some waker := by
  unfold State.register
  split
  · assumption
  · rfl

/-- The receiver goes on, and takes from `readyq` at most. -/
theorem Effect.setReceiver (hsenders : s'.senders = s.senders)
    (hwaker : s'.chan.receiverWaker = s.chan.receiverWaker)
    (hnum : s'.chan.numSenders = s.chan.numSenders)
    (hready : s'.chan.readyq.Sublist s.chan.readyq) (hwoken : s.woken <+: s'.woken) :
    Effect s s' := by
  refine Or.inl ⟨hwaker, hwoken, fun h => Or.inl ?_, fun h => Or.inl (hnum ▸ h),
    fun _ _ => by rw [hsenders]⟩
  rintro hnil
  rw [hnil] at hready
  exact h (List.sublist_nil.mp hready)

theorem receiverStep_effect (hs : Channel.receiverStep N s = some s') : Effect s s' := by
  unfold Channel.receiverStep at hs
  cases hr : s.receiver with
  | idle | dropped => rw [hr] at hs; cases hs
  | pop cx =>
    simp only [hr] at hs
    split at hs <;> cases hs
    · rename_i hready
      refine .setReceiver rfl rfl rfl ?_ (List.prefix_refl _)
      rw [hready]
      exact List.sublist_cons_self ..
    · exact .refl rfl rfl rfl
  | read i | drainRead i =>
    simp only [hr] at hs
    split at hs <;> cases hs
    · exact .setReceiver rfl rfl rfl (List.Sublist.refl _) (List.prefix_refl _)
    · exact .refl rfl rfl rfl
  | returnSlot i m =>
    simp only [hr] at hs
    split at hs <;> cases hs
    · rename_i hret
      rw [returnFreeSlot_frame hret]
      exact .setReceiver rfl rfl rfl (List.Sublist.refl _) (List.prefix_append ..)
    · exact .refl rfl rfl rfl
  | isClosed cx =>
    simp only [hr] at hs
    split at hs <;> cases hs <;> exact .refl rfl rfl rfl
  | drain =>
    simp only [hr] at hs
    split at hs <;> cases hs
    · exact .setReceiver rfl rfl rfl (List.dropLast_sublist _) (List.prefix_refl _)
    · exact .refl rfl rfl rfl
  | wakeAll =>
    simp only [hr] at hs
    split at hs <;> cases hs
    · exact .setReceiver rfl rfl rfl (List.Sublist.refl _) (List.prefix_append ..)
    · exact .setReceiver rfl rfl rfl (List.Sublist.refl _) (List.prefix_refl _)

/-- **Every step** is quiet or wakes the registered waker. -/
theorem step_effect {a : Action T} (hs : Channel.step N s a = some s') : Effect s s' := by
  cases a with
  | trySend q val | send q val =>
    simp only [Channel.step] at hs
    split at hs <;> cases hs
    rename_i hq
    exact .setSender (p := q) (by rw [hq]; rfl) rfl rfl rfl rfl (List.prefix_refl _)
  | poll q waker =>
    simp only [Channel.step] at hs
    split at hs <;> cases hs
    rename_i hq
    exact poll_effect hq waker
  | cancel q =>
    simp only [Channel.step] at hs
    split at hs <;> cases hs
    rename_i hq
    exact .setSender (p := q) (by rw [hq]; rfl) rfl rfl rfl rfl (List.prefix_refl _)
  | clone q r =>
    simp only [Channel.step] at hs
    split at hs <;> cases hs
    rename_i hr
    refine Or.inl ⟨rfl, List.prefix_refl _, Or.inl, by rintro ⟨⟩, fun t ht => ?_⟩
    have htr : t ≠ r := by
      rintro rfl
      rw [hr] at ht
      cases ht
    exact Function.update_of_ne htr ..
  | dropSender q =>
    simp only [Channel.step] at hs
    split at hs
    · rename_i hq
      have hother : ∀ (st : Sender T) (t : Nat), (s.senders t).toWake = true →
          Function.update s.senders q st t = s.senders t := by
        intro st t ht
        refine Function.update_of_ne ?_ ..
        rintro rfl
        rw [hq] at ht
        cases ht
      split at hs <;> cases hs
      · exact .refl rfl rfl rfl
      · -- the sender that dropped last is the one that wakes
        exact Or.inl ⟨rfl, List.prefix_refl _, Or.inl,
          fun _ => Or.inr ⟨q, Function.update_self ..⟩, hother _⟩
      · exact Or.inl ⟨rfl, List.prefix_refl _, Or.inl, by rintro ⟨⟩, hother _⟩
    · cases hs
  | sender q => exact senderStep_effect hs
  | tryRecv | dropReceiver =>
    simp only [Channel.step] at hs
    split at hs <;> cases hs
    exact .setReceiver rfl rfl rfl (List.Sublist.refl _) (List.prefix_refl _)
  | recv waker =>
    simp only [Channel.step] at hs
    split at hs <;> cases hs
    rcases register_effect (s := s) waker with h | h
    · exact Or.inl ⟨h.waker, h.woken, h.pushed, h.dropped, h.toWake⟩
    · exact Or.inr h
  | receiver => exact receiverStep_effect hs

/-! ## The polls of `recv` -/

/-- The polls that are running, and the last one if it returned `Pending`. -/
structure Polls (s : State T) : Prop where
  running : ∀ cx, s.receiver = .pop (some cx) → Registered s cx
  checking : ∀ cx, s.receiver = .isClosed (some cx) → Registered s cx ∧ Alerted s cx
  parked : ∀ cx, s.parked = some cx → Registered s cx ∧ Alerted s cx ∧ Closing s cx

/-- What a parked poll is told survives every step. -/
theorem Polls.parked_step (h : Polls s) (he : Effect s s') (hcx : s.parked = some cx) :
    Registered s' cx ∧ Alerted s' cx ∧ Closing s' cx := by
  obtain ⟨hr, ha, hc⟩ := h.parked cx hcx
  exact ⟨hr.step he, ha.step hr he, hc.step hr he⟩

/-- The receiver does not move. -/
theorem Polls.stay (h : Polls s) (he : Effect s s') (hreceiver : s'.receiver = s.receiver)
    (hparked : s'.parked = s.parked) : Polls s' where
  running _ hcx := (h.running _ (hreceiver ▸ hcx)).step he
  checking cx hcx := by
    obtain ⟨hr, ha⟩ := h.checking cx (hreceiver ▸ hcx)
    exact ⟨hr.step he, ha.step hr he⟩
  parked _ hcx := h.parked_step he (hparked ▸ hcx)

/-- The receiver is outside of a poll after the step. -/
theorem Polls.leave (h : Polls s) (he : Effect s s') (hpop : ∀ cx, s'.receiver ≠ .pop (some cx))
    (hclosed : ∀ cx, s'.receiver ≠ .isClosed (some cx)) (hparked : s'.parked = s.parked) :
    Polls s' where
  running cx hcx := absurd hcx (hpop cx)
  checking cx hcx := absurd hcx (hclosed cx)
  parked _ hcx := h.parked_step he (hparked ▸ hcx)

theorem poll_receiver {m : Msg T} {waker : Waker} :
    (Channel.poll s p waker m).receiver = s.receiver ∧
      (Channel.poll s p waker m).parked = s.parked := by
  unfold Channel.poll
  split
  · exact ⟨rfl, rfl⟩
  · split
    · split <;> exact ⟨rfl, rfl⟩
    · split
      · exact ⟨rfl, rfl⟩
      · split <;> exact ⟨rfl, rfl⟩

theorem finish_receiver {m : Msg T} {out : Outcome} :
    (s.finish p m out).receiver = s.receiver ∧ (s.finish p m out).parked = s.parked := by
  cases out <;> exact ⟨rfl, rfl⟩

theorem senderStep_receiver (hs : Channel.senderStep N s p = some s') :
    s'.receiver = s.receiver ∧ s'.parked = s.parked := by
  unfold Channel.senderStep at hs
  cases hp : s.senders p with
  | absent | idle | sending m w | dropped => rw [hp] at hs; cases hs
  | tryWaitQueue m | tryClosed m | tryPop m | write i m | push i m | unlink m out =>
    simp only [hp] at hs
    split at hs <;> cases hs <;> exact ⟨rfl, rfl⟩
  | returnSlot m out =>
    simp only [hp] at hs
    split at hs
    · split at hs <;> cases hs
      · exact finish_receiver
      · exact ⟨rfl, rfl⟩
    · cases hs
      exact finish_receiver
  | wake m | dropWake =>
    simp only [hp] at hs
    cases hs
    exact ⟨rfl, rfl⟩

theorem Polls.receiverStep (h : Polls s) (hs : Channel.receiverStep N s = some s') : Polls s' := by
  have he : Effect s s' := receiverStep_effect hs
  unfold Channel.receiverStep at hs
  cases hr : s.receiver with
  | idle | dropped => rw [hr] at hs; cases hs
  | pop c =>
    simp only [hr] at hs
    split at hs <;> cases hs
    · exact h.leave he (by rintro _ ⟨⟩) (by rintro _ ⟨⟩) rfl
    · rename_i hready
      refine ⟨by rintro _ ⟨⟩, fun cx hcx => ?_, fun _ hcx => h.parked_step he hcx⟩
      obtain rfl : c = some cx := by simpa using hcx
      -- nothing was there to be received
      exact ⟨(h.running cx hr).step he, fun hne => absurd hready hne⟩
  | read i | returnSlot i m | drain | drainRead i | wakeAll =>
    simp only [hr] at hs
    split at hs <;> cases hs <;>
      exact h.leave he (by simp [State.faulted, hr]) (by simp [State.faulted, hr]) rfl
  | isClosed c =>
    simp only [hr] at hs
    split at hs <;> cases hs
    · exact h.leave he (by rintro _ ⟨⟩) (by rintro _ ⟨⟩) rfl
    · rename_i hnum
      refine ⟨by rintro _ ⟨⟩, by rintro _ ⟨⟩, fun cx hcx => ?_⟩
      cases c with
      | none => exact h.parked_step he hcx
      | some c =>
        obtain rfl : c = cx := by simpa using hcx
        obtain ⟨hreg, halert⟩ := h.checking c hr
        exact ⟨hreg.step he, halert.step hreg he, fun hzero => absurd hzero hnum⟩

/-- **Every step keeps what the polls rely on.** -/
theorem Polls.step (h : Polls s) {a : Action T} (hs : Channel.step N s a = some s') : Polls s' := by
  have he : Effect s s' := step_effect hs
  cases a with
  | trySend q val | send q val | cancel q | clone q r =>
    simp only [Channel.step] at hs
    split at hs <;> cases hs
    exact h.stay he rfl rfl
  | poll q waker =>
    simp only [Channel.step] at hs
    split at hs <;> cases hs
    exact h.stay he poll_receiver.1 poll_receiver.2
  | dropSender q =>
    simp only [Channel.step] at hs
    split at hs
    · split at hs <;> cases hs <;> exact h.stay he rfl rfl
    · cases hs
  | sender q => exact h.stay he (senderStep_receiver hs).1 (senderStep_receiver hs).2
  | tryRecv =>
    simp only [Channel.step] at hs
    split at hs <;> cases hs
    exact h.leave he (by rintro _ ⟨⟩) (by rintro _ ⟨⟩) rfl
  | recv waker =>
    simp only [Channel.step] at hs
    split at hs <;> cases hs
    refine ⟨fun cx hcx => ?_, by rintro _ ⟨⟩, by rintro _ ⟨⟩⟩
    cases hcx
    exact ⟨Nat.le_refl _, Or.inl (register_registered waker)⟩
  | dropReceiver =>
    simp only [Channel.step] at hs
    split at hs <;> cases hs
    exact h.leave he (by rintro _ ⟨⟩) (by rintro _ ⟨⟩) rfl
  | receiver => exact h.receiverStep hs

theorem polls_init : Polls (machine T N).init := by
  constructor <;>
  · intro cx h
    cases h

theorem polls_reachable (h : (machine T N).Reachable s) : Polls s :=
  h.invariant (P := Polls) polls_init fun _ _ _ _ hp hs => hp.step hs

/--
**No wake-up is missed.** If the last poll of `recv` returned `Pending` and there is something to
receive, or no sender is left, then its waker was woken since it was registered, or somebody is
about to wake it.
-/
theorem no_receiver_wakeup_missed (h : (machine T N).Reachable s) (hcx : s.parked = some cx)
    (hready : s.chan.readyq ≠ [] ∨ s.chan.numSenders = 0) :
    cx.1 ∈ s.woken.drop cx.2 ∨ PushedToWake s.senders ∨ DroppedToWake s.senders := by
  obtain ⟨-, halert, hclosing⟩ := (polls_reachable h).parked cx hcx
  rcases hready with hne | hzero
  · exact (halert hne).imp_right Or.inl
  · exact (hclosing hzero).imp_right Or.inr

/-- `recv` is polled, and a value is pushed before its look at `num_senders`. -/
def pushedDuringPoll : List (Action Nat) :=
  [.recv 9, .receiver, .trySend 0 5] ++ List.replicate 5 (.sender 0) ++ [.receiver]

theorem no_receiver_wakeup_missed_run :
    ∃ s, (machine Nat 1).exec (machine Nat 1).init pushedDuringPoll = some s ∧
      (s.parked, s.chan.readyq, s.woken) = (some (9, 0), [0], []) ∧
      (9 ∈ s.woken.drop 0 ∨ PushedToWake s.senders ∨ DroppedToWake s.senders) := by
  have hrun : ((machine Nat 1).exec (machine Nat 1).init pushedDuringPoll).map
      (fun s => (s.parked, s.chan.readyq, s.woken)) = some (some (9, 0), [0], []) := by
    decide +kernel
  obtain ⟨s, hs, hobs⟩ := Option.map_eq_some_iff.mp hrun
  obtain ⟨hparked, hrest⟩ := Prod.mk.inj hobs
  have hready : s.chan.readyq ≠ [] := by
    rw [(Prod.mk.inj hrest).1]
    exact List.cons_ne_nil 0 []
  exact ⟨s, hs, hobs, no_receiver_wakeup_missed
    (Machine.reachable_iff_exec.mpr ⟨pushedDuringPoll, hs⟩) hparked (Or.inl hready)⟩

end Rticx.AsyncRt.Channel
