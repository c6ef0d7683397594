import Rticx.AsyncRt.ChannelFutures
import Rticx.AsyncRt.ChannelWake

/-!
# Which waker is woken

A poll of `recv` registers its waker in place of the one before. A poll of a send future that is in
line already leaves the waker in its link as it is. So a waiting send is woken through the waker of
its first poll, and only where that of the last one is the same is it the right one.
-/

namespace Rticx.AsyncRt.Channel

open Lib

variable {T : Type} {N : Nat} {s s' : State T} {ids live : List Nat} {p q i : Nat}
variable {a : Action T}

/-! ## Polls that returned `Pending` -/

/-- The waker that a poll of a send future is given. -/
def Action.waker? : Action T → Option Waker
  | .poll _ waker => some waker
  | _ => none

/-- The wakers of the first and of the last poll of a send future that returned `Pending`. -/
structure Wakers where
  first : Nat → Option Waker
  last : Nat → Option Waker

/-- What is known of a send future goes away with it. -/
def Wakers.next (n : Wakers) (_ : State T) (a : Action T) (s' : State T) : Wakers where
  first p :=
    if (s'.senders p).inFuture then
      if a.pends s' p then (n.first p).or a.waker? else n.first p
    else none
  last p :=
    if (s'.senders p).inFuture then
      if a.pends s' p then a.waker? else n.last p
    else none

/-- The channel with its parties and these notes. -/
def polled (T : Type) (N : Nat) : Machine (State T × Wakers) (Action T) :=
  (machine T N).withEvents { first := fun _ => none, last := fun _ => none } Wakers.next

/-- The send future is handed a slot, or it is popped by the drop of the receiver. -/
def State.serves (s : State T) (a : Action T) (s' : State T) (p : Nat) : Prop :=
  s.hands s' p = true ∨ s.dismisses a p = true

/-- Whoever serves a send future wakes it through the waker of its last pending poll. -/
def WakesLatest (N : Nat) (x : State T × Wakers) (a : Action T) : Prop :=
  ∀ s' p, Channel.step N x.1 a = some s' → x.1.serves a s' p →
    ∃ waker, x.2.last p = some waker ∧ s'.woken = x.1.woken ++ [waker]

/-- Its last pending poll had the waker of the first. -/
def SameWaker (N : Nat) (x : State T × Wakers) (a : Action T) : Prop :=
  ∀ s' p, Channel.step N x.1 a = some s' → x.1.serves a s' p → x.2.first p = x.2.last p

/-! ## The wake -/

/-- `return_free_slot` wakes the send that it hands the slot to. -/
theorem returnFreeSlot_wakes {c c' : Channel (Msg T)} {senders : Nat → Sender T}
    {woken : Option Waker} (hw : Waiting c.waitQueue c.cells senders ids)
    (hret : c.returnFreeSlot N i = some (c', woken)) (hnone : c.cells p = none)
    (hsome : c'.cells p ≠ none) :
    ∃ v, c.waitQueue.status p = some (v, false) ∧ woken = some v.1 := by
  cases ids with
  | nil =>
    obtain ⟨-, hcells, -⟩ := returnFreeSlot_free hw.represents hret
    rw [hcells] at hsome
    exact absurd hnone hsome
  | cons q ids =>
    obtain ⟨⟨waker, r⟩, w', hst, hpop, -, -⟩ := hw.represents.pop_cons
    obtain rfl : r = q := hw.own q (waker, r) false hst
    unfold returnFreeSlot at hret
    rw [hpop] at hret
    cases hret
    by_cases hpr : p = r
    · subst hpr
      exact ⟨(waker, p), hst, rfl⟩
    · exact absurd hnone (by simpa [Function.update_of_ne hpr] using hsome)

theorem hands_iff : s.hands s' p = true ↔ s.chan.cells p = none ∧ s'.chan.cells p ≠ none := by
  unfold State.hands
  rw [Bool.and_eq_true, Option.isNone_iff_eq_none, Option.isSome_iff_ne_none]

/-- A step that hands out no slot serves nobody, unless it is one of `Receiver::drop`. -/
theorem not_serves (hcells : ∀ p, s'.chan.cells p = none ∨ s'.chan.cells p = s.chan.cells p)
    (hd : s.dismisses a p = false) : ¬ s.serves a s' p := by
  rintro (hh | hdis)
  · obtain ⟨hnone, hsome⟩ := hands_iff.mp hh
    rcases hcells p with hc | hc
    · exact hsome hc
    · exact hsome (hc.trans hnone)
  · rw [hd] at hdis
    cases hdis

theorem senderStep_serves (hi : SlotsInv N s ids live) (hs : Channel.senderStep N s q = some s')
    (hserves : s.serves (.sender q) s' p) :
    ∃ v, s.chan.waitQueue.status p = some (v, false) ∧ s'.woken = s.woken ++ [v.1] := by
  have hno : s'.chan.cells = s.chan.cells → False := fun hcells =>
    not_serves (fun _ => Or.inr (by rw [hcells])) rfl hserves
  unfold Channel.senderStep at hs
  cases hq : s.senders q with
  | absent | idle | sending m w | dropped => rw [hq] at hs; cases hs
  | tryWaitQueue m | tryClosed m | tryPop m | write j m | push j m | unlink m out =>
    simp only [hq] at hs
    split at hs <;> cases hs <;> exact (hno rfl).elim
  | wake m | dropWake =>
    simp only [hq] at hs
    cases hs
    exact (hno rfl).elim
  | returnSlot m out =>
    simp only [hq] at hs
    cases hcell : s.chan.cells q with
    | none =>
      rw [hcell] at hs
      cases hs
      exact (hno (finish_cells m out)).elim
    | some slot =>
      obtain ⟨chan, woken, -, hret, -, -⟩ := hi.returnCell hq hcell
      simp only [hcell, hret, Option.some.injEq] at hs
      subst hs
      obtain ⟨hnone, hsome⟩ := hands_iff.mp (hserves.resolve_right Bool.false_ne_true)
      rw [finish_cells] at hsome
      have hpq : p ≠ q := by
        rintro rfl
        rw [hcell] at hnone
        cases hnone
      obtain ⟨v, hst, rfl⟩ := returnFreeSlot_wakes (hi.waiting.clearCell q) hret
        ((Function.update_of_ne hpq ..).trans hnone) hsome
      refine ⟨v, hst, ?_⟩
      cases out <;> rfl

theorem receiverStep_serves (hi : SlotsInv N s ids live)
    (hs : Channel.receiverStep N s = some s') (hserves : s.serves .receiver s' p) :
    ∃ v, s.chan.waitQueue.status p = some (v, false) ∧ s'.woken = s.woken ++ [v.1] := by
  have hno : (∀ w, s.receiver = w → w ≠ .wakeAll) → s'.chan.cells = s.chan.cells → False := by
    intro hr hcells
    refine not_serves (fun _ => Or.inr (by rw [hcells])) ?_ hserves
    unfold State.dismisses
    split
    · rename_i hwake _
      exact absurd rfl (hr _ hwake)
    · rfl
  unfold Channel.receiverStep at hs
  cases hr : s.receiver with
  | idle | dropped => rw [hr] at hs; cases hs
  | pop cx | read j | isClosed cx | drain | drainRead j =>
    have hno := hno (by rw [hr]; rintro _ rfl ⟨⟩)
    simp only [hr] at hs
    split at hs <;> cases hs <;> exact (hno rfl).elim
  | returnSlot j m =>
    obtain ⟨chan, woken, -, hret, -⟩ := hi.returnRead hr
    simp only [hr, hret, Option.some.injEq] at hs
    subst hs
    have hdis : s.dismisses .receiver p = false := by
      unfold State.dismisses
      rw [hr]
    have hh : s.hands _ p = true := hserves.resolve_right (by rw [hdis]; exact Bool.false_ne_true)
    obtain ⟨hnone, hsome⟩ := hands_iff.mp hh
    obtain ⟨v, hst, rfl⟩ := returnFreeSlot_wakes hi.waiting hret hnone hsome
    exact ⟨v, hst, rfl⟩
  | wakeAll =>
    simp only [hr] at hs
    cases ids with
    | nil =>
      have hpop := hi.waiting.represents.pop_nil
      rw [hpop] at hs
      cases hs
      refine absurd hserves (not_serves (fun _ => Or.inr rfl) ?_)
      simp only [State.dismisses, hr, hpop]
    | cons r ids =>
      obtain ⟨⟨waker, r'⟩, w', hst, hpop, -, -⟩ := hi.waiting.represents.pop_cons
      obtain rfl : r' = r := hi.waiting.own r (waker, r') false hst
      rw [hpop] at hs
      cases hs
      have hdis : s.dismisses .receiver p = true := by
        refine hserves.resolve_left fun hh => ?_
        obtain ⟨hnone, hsome⟩ := hands_iff.mp hh
        exact hsome hnone
      obtain rfl : r' = p := by simpa only [State.dismisses, hr, hpop, beq_iff_eq] using hdis
      exact ⟨(waker, r'), hst, rfl⟩

theorem poll_cells {m : Msg T} {waker : Waker} (p : Nat) :
    (Channel.poll s q waker m).chan.cells p = none ∨
      (Channel.poll s q waker m).chan.cells p = s.chan.cells p := by
  unfold Channel.poll
  split
  · exact Or.inr rfl
  · split
    · split
      · by_cases hpq : p = q
        · subst hpq
          exact Or.inl (Function.update_self ..)
        · exact Or.inr (Function.update_of_ne hpq ..)
      · exact Or.inr rfl
    · split
      · exact Or.inr rfl
      · split <;> exact Or.inr rfl

/-- **Whoever serves a send future wakes the waker in its link.** -/
theorem step_serves (hi : SlotsInv N s ids live) (hs : Channel.step N s a = some s')
    (hserves : s.serves a s' p) :
    ∃ v, s.chan.waitQueue.status p = some (v, false) ∧ s'.woken = s.woken ++ [v.1] := by
  cases a with
  | poll q waker =>
    simp only [Channel.step] at hs
    split at hs <;> cases hs
    exact absurd hserves (not_serves poll_cells rfl)
  | trySend q val | send q val | cancel q | clone r q | tryRecv | dropReceiver =>
    simp only [Channel.step] at hs
    split at hs <;> cases hs
    exact absurd hserves (not_serves (fun _ => Or.inr rfl) rfl)
  | dropSender q =>
    simp only [Channel.step] at hs
    split at hs
    · split at hs <;> cases hs <;> exact absurd hserves (not_serves (fun _ => Or.inr rfl) rfl)
    · cases hs
  | recv waker =>
    simp only [Channel.step] at hs
    split at hs <;> cases hs
    refine absurd hserves (not_serves (fun _ => Or.inr ?_) rfl)
    unfold State.register
    split <;> rfl
  | sender q => exact senderStep_serves hi hs hserves
  | receiver => exact receiverStep_serves hi hs hserves

/-! ## The link and the notes -/

variable {n : Wakers}

/-- What a poll does to the link of its future. -/
theorem poll_link (hi : SlotsInv N s ids live) (m : Msg T) (waker : Waker) :
    (Channel.poll s q waker m).chan.waitQueue.status q = s.chan.waitQueue.status q ∨
      (Channel.poll s q waker m).chan.waitQueue.status q = none ∨
      s.chan.waitQueue.status q = none ∧
        (Channel.poll s q waker m).senders q = .sending m (some waker) ∧
        (Channel.poll s q waker m).chan.waitQueue.status q = some ((waker, q), false) := by
  unfold Channel.poll
  split
  · exact Or.inl rfl
  · cases hlink : s.chan.waitQueue.links q with
    | some link =>
      have hst : s.chan.waitQueue.status q = some (link.val, link.isPopped) := by
        simp [WaitQueue.status, WaitQueue.statusOf, hlink]
      cases hpop : link.isPopped with
      | false =>
        simp only [hpop, Bool.false_eq_true, if_false]
        exact Or.inl rfl
      | true =>
        rw [hpop] at hst
        have htake := (hi.waiting.represents.take (hi.waiting.not_mem_of_popped hst)).2
        simp only [hpop, if_true]
        refine Or.inr (Or.inl ?_)
        rw [htake, Function.update_self]
    | none =>
      have hst : s.chan.waitQueue.status q = none := by
        simp [WaitQueue.status, WaitQueue.statusOf, hlink]
      have hstatus := (hi.waiting.represents.insert_push hlink (waker, q)).2
      simp only
      split
      · refine Or.inr (Or.inr ⟨hst, setSender_self, ?_⟩)
        rw [hstatus, Function.update_self]
      · split <;> exact Or.inl rfl

/-- The link of a send future has the waker of its first pending poll; without a link there was
none. -/
structure FirstLinked (s : State T) (n : Wakers) : Prop where
  linked : ∀ p v b, s.chan.waitQueue.status p = some (v, b) → n.first p = some v.1
  unlinked : ∀ p m w, s.senders p = .sending m w → s.chan.waitQueue.status p = none →
    n.first p = none
  outside : ∀ p, (s.senders p).inFuture = false → n.first p = none

theorem Wakers.next_first (hp : (s'.senders p).inFuture = true) (hpend : a.pends s' p = false) :
    (n.next s a s').first p = n.first p := by
  simp only [Wakers.next, hp, hpend, if_true, Bool.false_eq_true, if_false]

theorem Wakers.next_outside (hp : (s'.senders p).inFuture = false) :
    (n.next s a s').first p = none := by
  simp only [Wakers.next, hp, Bool.false_eq_true, if_false]

/-- One sender, in a step that does not poll it. -/
theorem FirstLinked.step_quiet (h : FirstLinked s n) (ht' : Told s')
    (hpend : a.pends s' p = false) (hlink : LinkStep s a s' p)
    (hsending : ∀ m w, s'.senders p = .sending m w →
      s.senders p = .sending m w ∨ (s.senders p).inFuture = false) :
    (∀ v b, s'.chan.waitQueue.status p = some (v, b) → (n.next s a s').first p = some v.1) ∧
      ∀ m w, s'.senders p = .sending m w → s'.chan.waitQueue.status p = none →
        (n.next s a s').first p = none := by
  constructor
  · intro v b hst
    have hfut : (s'.senders p).inFuture = true := ht'.popped.linked p _ hst
    rw [Wakers.next_first hfut hpend]
    cases hlink with
    | same hsame => exact h.linked p v b (hsame ▸ hst)
    | popped u hold hnew | unlinked u c hold hnew =>
      cases hst.symm.trans hnew
      exact h.linked p _ _ hold
    | forgotten hnone =>
      rw [hnone] at hst
      cases hst
  · intro m w hp hst
    have hfut : (s'.senders p).inFuture = true := by rw [hp]; rfl
    rw [Wakers.next_first hfut hpend]
    rcases hsending m w hp with hold | hout
    · refine h.unlinked p m w hold ?_
      cases hlink with
      | same hsame => exact hsame.symm.trans hst
      | popped u _ hnew | unlinked u c _ hnew => cases hst.symm.trans hnew
      | forgotten _ hgone =>
        rw [hfut] at hgone
        cases hgone
    · exact h.outside p hout

/-- The sender that is polled. -/
theorem FirstLinked.step_polled (h : FirstLinked s n) (hi : SlotsInv N s ids live)
    {m : Msg T} {w : Option Waker} (hq : s.senders q = .sending m w) (waker : Waker)
    (ht' : Told (Channel.poll s q waker m)) :
    (∀ v b, (Channel.poll s q waker m).chan.waitQueue.status q = some (v, b) →
        (n.next s (.poll q waker) (Channel.poll s q waker m)).first q = some v.1) ∧
      ∀ m' w', (Channel.poll s q waker m).senders q = .sending m' w' →
        (Channel.poll s q waker m).chan.waitQueue.status q = none →
        (n.next s (.poll q waker) (Channel.poll s q waker m)).first q = none := by
  constructor
  · intro v b hst
    have hfut := ht'.popped.linked q _ hst
    rcases poll_link hi m waker with hsame | hnone | ⟨hold, hsend, hnew⟩
    · -- the link stays, and so does the first waker
      have hfirst := h.linked q v b (hsame.symm.trans hst)
      simp only [Wakers.next, hfut, if_true]
      split
      · rw [hfirst, Option.some_or]
      · exact hfirst
    · rw [hnone] at hst
      cases hst
    · cases hst.symm.trans hnew
      have hpend : Action.pends (.poll q waker) (Channel.poll s q waker m) q = true := by
        simp [Action.pends, hsend]
      simp only [Wakers.next, hfut, hpend, if_true, h.unlinked q m w hq hold, Option.none_or]
      rfl
  · intro m' w' hsend hst
    obtain ⟨_, -, hpoll, -⟩ := poll_step (q := q) hi waker m
    cases hpoll with
    | ready hne => exact absurd hsend (hne m' w')
    | again _ _ _ _ _ hlinked | enters _ _ _ _ _ hlinked => cases hst.symm.trans hlinked

theorem FirstLinked.step (h : FirstLinked s n) (hi : SlotsInv N s ids live) (ht' : Told s')
    (hs : Channel.step N s a = some s') : FirstLinked s' (n.next s a s') := by
  have hboth : ∀ p, (∀ v b, s'.chan.waitQueue.status p = some (v, b) →
      (n.next s a s').first p = some v.1) ∧
      ∀ m w, s'.senders p = .sending m w → s'.chan.waitQueue.status p = none →
        (n.next s a s').first p = none := by
    intro p
    by_cases ha : ∃ q waker, a = .poll q waker
    · obtain ⟨q, waker, rfl⟩ := ha
      simp only [Channel.step] at hs
      split at hs <;> cases hs
      rename_i m w hq
      by_cases hpq : p = q
      · subst hpq
        exact h.step_polled hi hq waker ht'
      · have hstay := poll_stays (s := s) hpq waker m
        obtain ⟨_, -, -, hstatus⟩ := poll_step (q := q) hi waker m
        refine h.step_quiet ht' (pends_eq_false ?_) (.same (hstatus p hpq) (hands_of_eq hstay.2) ?_)
          fun _ _ hp => Or.inl (hstay.1.symm.trans hp)
        · rintro _ ⟨⟩
          exact hpq rfl
        · exact dismisses_of_ne (by rintro ⟨⟩) p
    · have hne : ∀ q waker, a ≠ .poll q waker := fun q waker heq => ha ⟨q, waker, heq⟩
      exact h.step_quiet ht' (pends_eq_false (hne p)) (step_link hi hne hs p)
        fun _ _ hp => step_sending hi hne hs hp
  exact ⟨fun p => (hboth p).1, fun p => (hboth p).2, fun p hp => Wakers.next_outside hp⟩

theorem firstLinked_init : FirstLinked (machine T N).init (polled T N).init.2 where
  linked _ _ _ h := by cases h
  unlinked _ _ _ _ _ := rfl
  outside _ _ := rfl

theorem firstLinked_reachable (hN : N ≤ 255) {x : State T × Wakers}
    (h : (polled T N).Reachable x) : FirstLinked x.1 x.2 := by
  refine h.invariant (P := fun x => FirstLinked x.1 x.2) firstLinked_init ?_
  rintro x a y hr hf hst
  obtain ⟨hs, hn⟩ := Machine.withEvents_step hst
  have hr' := hr.of_withEvents
  obtain ⟨ids, live, hi⟩ := slotsInv_reachable hN hr'
  rw [hn]
  exact hf.step hi (told_reachable hN (hr'.step hs)) hs

/-- In a reachable state, the last waker is woken if it is the first one. -/
theorem wakesLatest_iff (hN : N ≤ 255) {x : State T × Wakers} (h : (polled T N).Reachable x)
    (a : Action T) : WakesLatest N x a ↔ SameWaker N x a := by
  obtain ⟨ids, live, hi⟩ := slotsInv_reachable hN h.of_withEvents
  have hfirst := firstLinked_reachable hN h
  refine forall_congr' fun s' => forall_congr' fun p => imp_congr_right fun hs =>
    imp_congr_right fun hserves => ?_
  obtain ⟨v, hst, hwoken⟩ := step_serves hi hs hserves
  rw [hfirst.linked p v false hst, hwoken]
  constructor
  · rintro ⟨waker, hlast, heq⟩
    obtain rfl : v.1 = waker := by simpa using heq
    exact hlast.symm
  · intro hlast
    exact ⟨v.1, hlast.symm, rfl⟩

/-! ## The waker of the receiver -/

/-- The step calls `receiver_waker.wake()`, behind a push or the drop of the last sender. -/
def State.alerts (s : State T) : Action T → Bool
  | .sender p => (s.senders p).toWake
  | _ => false

/-- Whoever calls `receiver_waker.wake()` wakes the last pending poll of `recv`, if nobody did
before, and no other waker. -/
def AlertsLatest (N : Nat) (s : State T) (a : Action T) : Prop :=
  ∀ s' cx, Channel.step N s a = some s' → s.alerts a = true → s.parked = some cx →
    Woken s'.woken cx ∧ ∀ waker ∈ s'.woken.drop s.woken.length, waker = cx.1

/-- The poll of `recv` is running, or it is the last one and returned `Pending`. -/
def State.Asks (s : State T) (cx : Waker × Nat) : Prop :=
  s.receiver = .pop (some cx) ∨ s.receiver = .isClosed (some cx) ∨ s.parked = some cx

/-- The registered waker is that of the last poll. -/
def Latest (s : State T) : Prop :=
  ∀ cx, s.Asks cx → ∀ waker, s.chan.receiverWaker = some waker → waker = cx.1

/-- A step that registers no waker. -/
theorem step_receiverWaker (hs : Channel.step N s a = some s') (ha : ∀ waker, a ≠ .recv waker) :
    s'.chan.receiverWaker = s.chan.receiverWaker ∨ s'.chan.receiverWaker = none := by
  cases a with
  | recv waker => exact absurd rfl (ha waker)
  | trySend q val | send q val | cancel q | clone r q | tryRecv | dropReceiver =>
    simp only [Channel.step] at hs
    split at hs <;> cases hs
    exact Or.inl rfl
  | poll q waker =>
    simp only [Channel.step] at hs
    split at hs <;> cases hs
    refine Or.inl ?_
    unfold Channel.poll
    split
    · rfl
    · split
      · split <;> rfl
      · split
        · rfl
        · split <;> rfl
  | dropSender q =>
    simp only [Channel.step] at hs
    split at hs
    · split at hs <;> cases hs <;> exact Or.inl rfl
    · cases hs
  | sender q =>
    simp only [Channel.step] at hs
    unfold Channel.senderStep at hs
    cases hq : s.senders q with
    | absent | idle | sending m w | dropped => rw [hq] at hs; cases hs
    | tryWaitQueue m | tryClosed m | tryPop m | write j m | push j m | unlink m out =>
      simp only [hq] at hs
      split at hs <;> cases hs <;> exact Or.inl rfl
    | wake m | dropWake =>
      simp only [hq] at hs
      cases hs
      exact Or.inr rfl
    | returnSlot m out =>
      simp only [hq] at hs
      split at hs
      · split at hs <;> cases hs
        · rename_i hret
          refine Or.inl ?_
          rw [returnFreeSlot_frame hret]
          cases out <;> rfl
        · exact Or.inl rfl
      · cases hs
        refine Or.inl ?_
        cases out <;> rfl
  | receiver =>
    refine Or.inl ?_
    simp only [Channel.step] at hs
    unfold Channel.receiverStep at hs
    cases hr : s.receiver with
    | idle | dropped => rw [hr] at hs; cases hs
    | returnSlot j m =>
      simp only [hr] at hs
      split at hs <;> cases hs
      · rename_i hret
        rw [returnFreeSlot_frame hret]
      · rfl
    | pop cx | read j | isClosed cx | drain | drainRead j | wakeAll =>
      simp only [hr] at hs
      split at hs <;> cases hs <;> rfl

/-- Without a new poll, the last one is the same. -/
theorem step_asks (hs : Channel.step N s a = some s') (ha : ∀ waker, a ≠ .recv waker)
    {cx : Waker × Nat} (h : s'.Asks cx) : s.Asks cx := by
  have hstay : s'.receiver = s.receiver → s'.parked = s.parked → s.Asks cx := by
    intro hreceiver hparked
    unfold State.Asks at *
    rwa [hreceiver, hparked] at h
  -- a step of the receiver that leaves the poll behind
  have hleave : (∀ c, s'.receiver ≠ .pop (some c)) → (∀ c, s'.receiver ≠ .isClosed (some c)) →
      s'.parked = s.parked → s.Asks cx := by
    intro hpop hclosed hparked
    rcases h with h | h | h
    · exact absurd h (hpop cx)
    · exact absurd h (hclosed cx)
    · exact Or.inr (Or.inr (hparked ▸ h))
  cases a with
  | recv waker => exact absurd rfl (ha waker)
  | trySend q val | send q val | cancel q | clone r q =>
    simp only [Channel.step] at hs
    split at hs <;> cases hs
    exact hstay rfl rfl
  | poll q waker =>
    simp only [Channel.step] at hs
    split at hs <;> cases hs
    exact hstay poll_receiver.1 poll_receiver.2
  | dropSender q =>
    simp only [Channel.step] at hs
    split at hs
    · split at hs <;> cases hs <;> exact hstay rfl rfl
    · cases hs
  | sender q => exact hstay (senderStep_receiver hs).1 (senderStep_receiver hs).2
  | tryRecv | dropReceiver =>
    simp only [Channel.step] at hs
    split at hs <;> cases hs
    exact hleave (by rintro _ ⟨⟩) (by rintro _ ⟨⟩) rfl
  | receiver =>
    simp only [Channel.step] at hs
    unfold Channel.receiverStep at hs
    cases hr : s.receiver with
    | idle | dropped => rw [hr] at hs; cases hs
    | read i | returnSlot i m | drain | drainRead i | wakeAll =>
      simp only [hr] at hs
      split at hs <;> cases hs <;>
        exact hleave (by simp [State.faulted, hr]) (by simp [State.faulted, hr]) rfl
    | pop c =>
      simp only [hr] at hs
      split at hs <;> cases hs
      · exact hleave (by rintro _ ⟨⟩) (by rintro _ ⟨⟩) rfl
      · rcases h with h | h | h
        · cases h
        · obtain rfl : c = some cx := by simpa using h
          exact Or.inl hr
        · exact Or.inr (Or.inr h)
    | isClosed c =>
      simp only [hr] at hs
      split at hs <;> cases hs
      · exact hleave (by rintro _ ⟨⟩) (by rintro _ ⟨⟩) rfl
      · rcases h with h | h | h
        · cases h
        · cases h
        · cases c with
          | none => exact Or.inr (Or.inr h)
          | some c =>
            obtain rfl : c = cx := by simpa using h
            exact Or.inr (Or.inl hr)

theorem Latest.step (h : Latest s) (hs : Channel.step N s a = some s') : Latest s' := by
  intro cx hasks w hw
  by_cases ha : ∃ waker, a = .recv waker
  · obtain ⟨waker, rfl⟩ := ha
    simp only [Channel.step] at hs
    split at hs <;> cases hs
    have hreg : (s.register waker).chan.receiverWaker = some w := hw
    obtain rfl := Option.some.inj ((register_registered waker).symm.trans hreg)
    rcases hasks with hpop | hclosed | hparked
    · cases hpop
      rfl
    · cases hclosed
    · cases hparked
  · have hne : ∀ waker, a ≠ .recv waker := fun waker heq => ha ⟨waker, heq⟩
    rcases step_receiverWaker hs hne with hsame | hnone
    · exact h cx (step_asks hs hne hasks) w (hsame ▸ hw)
    · rw [hnone] at hw
      cases hw

theorem latest_reachable (h : (machine T N).Reachable s) : Latest s := by
  refine h.invariant (P := Latest) ?_ fun _ _ _ _ hl hs => hl.step hs
  rintro cx (hcx | hcx | hcx) <;> cases hcx

/-- **The receiver is always alerted through the waker of its last pending poll.** -/
theorem alertsLatest (h : (machine T N).Reachable s) (a : Action T) : AlertsLatest N s a := by
  intro s' cx hs ha hcx
  have hwoken : s'.woken = s.woken ++ s.chan.receiverWaker.toList := by
    cases a with
    | sender p =>
      have ha : (s.senders p).toWake = true := ha
      simp only [Channel.step] at hs
      unfold Channel.senderStep at hs
      cases hp : s.senders p with
      | wake m | dropWake =>
        simp only [hp] at hs
        cases hs
        rfl
      | _ =>
        rw [hp] at ha
        cases ha
    | _ => cases ha
  rw [hwoken]
  refine ⟨((polls_reachable h).parked cx hcx).1.woken, fun waker hw => ?_⟩
  rw [List.drop_left] at hw
  exact latest_reachable h cx (Or.inr (Or.inr hcx)) waker (Option.mem_toList.mp hw)

/-! ## The latest waker -/

/--
**The latest waker is woken exactly if it is the first one.** In a run, every send that is handed a
slot, or popped by the drop of the receiver, is woken through the waker of its most recent pending
poll, and so is `recv` behind a push and behind the drop of the last sender, if and only if each
send that is served has had the same waker in its first pending poll.
-/
theorem latest_waker_iff (hN : N ≤ 255) (as : List (Action T)) :
    (polled T N).Along (fun x a => WakesLatest N x a ∧ AlertsLatest N x.1 a) (polled T N).init as ↔
      (polled T N).Along (SameWaker N) (polled T N).init as := by
  refine Machine.along_congr (fun x a hr => ?_) .init as
  exact (and_iff_left (alertsLatest hr.of_withEvents a)).trans (wakesLatest_iff hN hr a)

/-- A second sender waits for the slot of the first, and is polled twice. -/
def polledTwice (waker : Waker) : List (Action Nat) :=
  [.clone 0 1, .trySend 0 5] ++ List.replicate 6 (.sender 0) ++
    [.send 1 6, .poll 1 8, .poll 1 waker, .tryRecv, .receiver, .receiver]

theorem latest_waker_iff_run :
    ((polled Nat 1).exec (polled Nat 1).init (polledTwice 8)).map
        (fun x => (x.2.first 1, x.2.last 1)) = some (some 8, some 8) ∧
      ((polled Nat 1).Along (fun x a => WakesLatest 1 x a ∧ AlertsLatest 1 x.1 a)
          (polled Nat 1).init (polledTwice 8 ++ [.receiver]) ↔
        (polled Nat 1).Along (SameWaker 1) (polled Nat 1).init (polledTwice 8 ++ [.receiver])) :=
  ⟨by decide +kernel, latest_waker_iff (by decide) _⟩

/-- The slot that is handed over wakes the waker of the first poll. -/
theorem stale_waker_woken :
    ¬ (polled Nat 1).Along (fun x a => WakesLatest 1 x a ∧ AlertsLatest 1 x.1 a)
      (polled Nat 1).init (polledTwice 9 ++ [.receiver]) := by
  have hrun : ((polled Nat 1).exec (polled Nat 1).init (polledTwice 9)).map
      (fun x => (x.2.last 1, ((Channel.step 1 x.1 .receiver).map fun s' =>
        (x.1.hands s' 1, s'.woken)))) = some (some 9, some (true, [8])) := by decide +kernel
  obtain ⟨x, hx, hobs⟩ := Option.map_eq_some_iff.mp hrun
  obtain ⟨hlast, hstep⟩ := Prod.mk.inj hobs
  obtain ⟨s', hs', hobs'⟩ := Option.map_eq_some_iff.mp hstep
  obtain ⟨hhands, hwoken⟩ := Prod.mk.inj hobs'
  intro h
  obtain ⟨waker, hw, heq⟩ :=
    ((Machine.along_append _ hx).mp h).2.1.1 s' 1 hs' (Or.inl hhands)
  obtain rfl : 9 = waker := Option.some.inj (hlast.symm.trans hw)
  rw [hwoken] at heq
  have := congrArg List.getLast? heq
  simp at this

end Rticx.AsyncRt.Channel
