import Rticx.AsyncRt.ChannelDelivery

/-!
# What is left in a channel

`Receiver::drop` sets its flag, empties `readyq` and is done with it. A sender that looked at the
flag before still has its slot, writes it and pushes its index, and nobody is left to take it out.
As long as no index is pushed behind the drain, every value gets out of the channel.
-/

namespace Rticx.AsyncRt.Channel

open Lib

variable {T : Type} {N : Nat}

/-! ## The values in the channel -/

/-- `Receiver::drop` has found `readyq` empty. -/
def Receiver.drained : Receiver T → Bool
  | .wakeAll | .dropped => true
  | _ => false

/-- The value that `try_recv` has read and not returned yet. -/
def Receiver.inHand : Receiver T → Option (Msg T)
  | .returnSlot _ m => some m
  | _ => none

/-- What is in the channel: pushed, and neither returned nor dropped. -/
def State.inside (s : State T) : List (Option (Msg T)) :=
  s.receiver.inHand.toList.map some ++ (s.receiver.unread.toList ++ s.chan.readyq).map s.chan.slots

/-- The step is the push of a sender. -/
def State.pushes (s : State T) : Action T → Bool
  | .sender p => (s.senders p).written.isSome
  | _ => false

deriving instance DecidableEq for Receiver

/-- All endpoints are dropped. -/
structure State.Finished (s : State T) : Prop where
  receiver : s.receiver = .dropped
  senders : ∀ p, (s.senders p).isLive = false

/--
No value is stranded: each is returned or dropped once at most; the value of a call that returned
`Ok` is returned, or dropped, or still in the channel of a receiver that will come to it; that of a
call that returned an error is handed back; and in the end no slot holds a value.
-/
structure NoneStranded (s : State T) : Prop where
  once : ((s.received ++ s.discarded).map Msg.op).Nodup
  ok : ∀ k, (k, .ok ()) ∈ s.results → k ∈ (s.received ++ s.discarded).map Msg.op ∨
    s.receiver.drained = false ∧ ∃ m, m.op = k ∧ some m ∈ s.inside
  error : ∀ k e, (k, .error e) ∈ s.results →
    s.calls[k]? = some e.val ∧ k ∉ (s.received ++ s.discarded).map Msg.op
  slots : s.Finished → ∀ i, s.chan.slots i = none

@[simp] theorem setSender_receiver {s : State T} {p : Nat} {st : Sender T} :
    (s.setSender p st).receiver = s.receiver := rfl

/-! ## What a step does to the values -/

/-- What a step can do to the slots, to `readyq` and to the values taken out. -/
inductive ValueStep (s : State T) (a : Action T) (s' : State T) : Prop where
  /-- no value moves -/
  | keep : s.pushes a = false → s'.pushed = s.pushed → s'.received = s.received →
    s'.discarded = s.discarded → s'.chan.readyq = s.chan.readyq → s'.chan.slots = s.chan.slots →
    s'.receiver.unread = s.receiver.unread → s'.receiver.inHand = s.receiver.inHand →
    (∀ p i m, s.senders p = .push i m → s'.senders p = .push i m) →
    (s.receiver.drained = true → s'.receiver.drained = true) →
    (s'.receiver.drained = true → s.receiver.drained = true ∨ s.chan.readyq = []) →
    ValueStep s a s'
  /-- a sender writes its slot -/
  | write (p i : Nat) (m : Msg T) : s.senders p = .write i m → s.pushes a = false →
    s' = { s.setSender p (.push i m) with
      chan := { s.chan with slots := Function.update s.chan.slots i (some m) } } →
    ValueStep s a s'
  /-- a sender pushes its index -/
  | push (p i : Nat) (m : Msg T) : s.senders p = .push i m → s.pushes a = true →
    s' = { s.setSender p (.wake m) with
      chan := { s.chan with readyq := s.chan.readyq ++ [i] }
      pushed := s.pushed ++ [m] } →
    ValueStep s a s'
  /-- the receiver takes an index from one of the ends -/
  | take (i : Nat) (readyq : List Nat) (st : Receiver T) (atPop : Nat) : s.pushes a = false →
    s.chan.readyq.Perm (i :: readyq) → s.receiver.drained = false → s.receiver.unread = none →
    s.receiver.inHand = none → st.drained = false → st.unread = some i → st.inHand = none →
    s' = { s with
      receiver := st, chan := { s.chan with readyq := readyq }, pushedAtPop := atPop } →
    ValueStep s a s'
  /-- `try_recv` reads a slot -/
  | read (i : Nat) (m : Msg T) : s.pushes a = false → s.receiver = .read i →
    s.chan.slots i = some m →
    s' = { s with
      receiver := .returnSlot i m
      chan := { s.chan with slots := Function.update s.chan.slots i none } } →
    ValueStep s a s'
  /-- `try_recv` returns what it has read -/
  | receive (i : Nat) (m : Msg T) (c : Channel (Msg T)) (woken : List Waker) :
    s.pushes a = false → s.receiver = .returnSlot i m → c.readyq = s.chan.readyq →
    c.slots = s.chan.slots →
    s' = { s with receiver := .idle, chan := c, woken := woken, received := s.received ++ [m] } →
    ValueStep s a s'
  /-- `Receiver::drop` drops a value -/
  | discard (i : Nat) (m : Msg T) : s.pushes a = false → s.receiver = .drainRead i →
    s.chan.slots i = some m →
    s' = { s with
      receiver := .drain
      chan := { s.chan with slots := Function.update s.chan.slots i none }
      discarded := s.discarded ++ [m] } →
    ValueStep s a s'

variable {s s' : State T} {a : Action T} {ids live : List Nat} {p : Nat}

/-- A sender moves on, and neither comes from a push nor to one. -/
theorem ValueStep.setSender {st : Sender T} (ha : s.pushes a = false)
    (hp : (s.senders p).written = none) (hpushed : s'.pushed = s.pushed)
    (hreceived : s'.received = s.received) (hdiscarded : s'.discarded = s.discarded)
    (hready : s'.chan.readyq = s.chan.readyq) (hslots : s'.chan.slots = s.chan.slots)
    (hreceiver : s'.receiver = s.receiver) (hsenders : s'.senders = Function.update s.senders p st) :
    ValueStep s a s' := by
  refine .keep ha hpushed hreceived hdiscarded hready hslots (by rw [hreceiver])
    (by rw [hreceiver]) (fun q i m hq => ?_) (fun h => hreceiver ▸ h) (fun h => Or.inl (hreceiver ▸ h))
  have hqp : q ≠ p := by
    rintro rfl
    rw [hq] at hp
    cases hp
  rw [hsenders, Function.update_of_ne hqp]
  exact hq

/-- Nothing happens to the values. -/
theorem ValueStep.stay (ha : s.pushes a = false) (hpushed : s'.pushed = s.pushed)
    (hreceived : s'.received = s.received) (hdiscarded : s'.discarded = s.discarded)
    (hready : s'.chan.readyq = s.chan.readyq) (hslots : s'.chan.slots = s.chan.slots)
    (hunread : s'.receiver.unread = s.receiver.unread)
    (hinHand : s'.receiver.inHand = s.receiver.inHand) (hsenders : s'.senders = s.senders)
    (hdrained : s'.receiver.drained = s.receiver.drained) : ValueStep s a s' :=
  .keep ha hpushed hreceived hdiscarded hready hslots hunread hinHand
    (fun _ _ _ hq => hsenders ▸ hq) (fun h => hdrained ▸ h) (fun h => Or.inl (hdrained ▸ h))

theorem poll_valueStep {polled : Option Waker} {m : Msg T} {waker : Waker}
    (hp : s.senders p = .sending m polled) :
    ValueStep s (.poll p waker) (Channel.poll s p waker m) := by
  obtain ⟨st, -, -, chan, fault, heq, hslots, hready, -⟩ := poll_frame waker hp
  rw [heq]
  exact .setSender rfl (by rw [hp]; rfl) rfl rfl rfl hready hslots rfl rfl

/-- The send future is gone. -/
theorem finish_valueStep {c : Channel (Msg T)} {woken : List Waker} {m : Msg T} {out : Outcome}
    (hp : s.senders p = .returnSlot m out) (hready : c.readyq = s.chan.readyq)
    (hslots : c.slots = s.chan.slots) :
    ValueStep s (.sender p) (State.finish { s with chan := c, woken := woken } p m out) := by
  have ha : s.pushes (.sender p) = false := by simp [State.pushes, hp, Sender.written]
  cases out <;> exact .setSender ha (by rw [hp]; rfl) rfl rfl rfl hready hslots rfl rfl

theorem senderStep_valueStep (hi : SlotsInv N s ids live)
    (hs : Channel.senderStep N s p = some s') : ValueStep s (.sender p) s' := by
  unfold Channel.senderStep at hs
  cases hp : s.senders p with
  | absent | idle | sending m w | dropped => rw [hp] at hs; cases hs
  | tryWaitQueue m | tryClosed m | tryPop m | unlink m out =>
    have ha : s.pushes (.sender p) = false := by simp [State.pushes, hp, Sender.written]
    simp only [hp] at hs
    split at hs <;> cases hs <;> exact .setSender ha (by rw [hp]; rfl) rfl rfl rfl rfl rfl rfl rfl
  | returnSlot m out =>
    simp only [hp] at hs
    cases hcell : s.chan.cells p with
    | none =>
      simp only [hcell, Option.some.injEq] at hs
      subst hs
      exact finish_valueStep hp rfl rfl
    | some slot =>
      obtain ⟨chan, woken, _, hret, -, -⟩ := hi.returnCell hp hcell
      simp only [hcell, hret, Option.some.injEq] at hs
      subst hs
      have hframe := returnFreeSlot_frame hret
      exact finish_valueStep hp (by rw [hframe]) (by rw [hframe])
  | write i m =>
    have ha : s.pushes (.sender p) = false := by simp [State.pushes, hp, Sender.written]
    simp only [hp] at hs
    split at hs <;> cases hs
    · exact .write p i m hp ha rfl
    · exact .stay ha rfl rfl rfl rfl rfl rfl rfl rfl rfl
  | push i m =>
    have hroom : s.chan.readyq.length < N := hi.owned.length_lt (A := .written p) (B := .ready)
      (i := i) (by simp [State.items, hp, Sender.written]) (by rintro ⟨⟩)
    simp only [hp] at hs
    rw [if_pos hroom] at hs
    cases hs
    exact .push p i m hp (by simp [State.pushes, hp, Sender.written]) rfl
  | wake m | dropWake =>
    have ha : s.pushes (.sender p) = false := by simp [State.pushes, hp, Sender.written]
    simp only [hp, Option.some.injEq] at hs
    subst hs
    exact .setSender ha (by rw [hp]; rfl) rfl rfl rfl rfl rfl rfl rfl

theorem receiverStep_valueStep (hs : Channel.receiverStep N s = some s') :
    ValueStep s .receiver s' := by
  unfold Channel.receiverStep at hs
  cases hr : s.receiver with
  | idle | dropped => rw [hr] at hs; cases hs
  | pop cx =>
    simp only [hr] at hs
    split at hs <;> cases hs
    · rename_i i readyq hready
      exact .take i readyq (.read i) _ rfl (.of_eq hready) (by rw [hr]; rfl) (by rw [hr]; rfl)
        (by rw [hr]; rfl) rfl rfl rfl rfl
    · exact .stay rfl rfl rfl rfl rfl rfl (by rw [hr]; rfl) (by rw [hr]; rfl) rfl (by rw [hr]; rfl)
  | read i =>
    simp only [hr] at hs
    split at hs <;> cases hs
    · rename_i m hslot
      exact .read i m rfl hr hslot rfl
    · exact .stay rfl rfl rfl rfl rfl rfl rfl rfl rfl rfl
  | returnSlot i m =>
    simp only [hr] at hs
    split at hs <;> cases hs
    · rename_i hret
      have hframe := returnFreeSlot_frame hret
      exact .receive i m _ _ rfl hr (by rw [hframe]) (by rw [hframe]) rfl
    · exact .stay rfl rfl rfl rfl rfl rfl rfl rfl rfl rfl
  | isClosed cx =>
    simp only [hr] at hs
    split at hs <;> cases hs <;>
      exact .stay rfl rfl rfl rfl rfl rfl (by rw [hr]; rfl) (by rw [hr]; rfl) rfl (by rw [hr]; rfl)
  | drain =>
    simp only [hr] at hs
    split at hs <;> cases hs
    · rename_i i hlast
      exact .take i _ (.drainRead i) _ rfl (perm_cons_dropLast hlast) (by rw [hr]; rfl)
        (by rw [hr]; rfl) (by rw [hr]; rfl) rfl rfl rfl rfl
    · rename_i hlast
      -- the drain is over
      exact .keep rfl rfl rfl rfl rfl rfl (by rw [hr]; rfl) (by rw [hr]; rfl) (fun _ _ _ => id)
        (fun _ => rfl) (fun _ => Or.inr (List.getLast?_eq_none_iff.mp hlast))
  | drainRead i =>
    simp only [hr] at hs
    split at hs <;> cases hs
    · rename_i m hslot
      exact .discard i m rfl hr hslot rfl
    · exact .stay rfl rfl rfl rfl rfl rfl rfl rfl rfl rfl
  | wakeAll =>
    simp only [hr] at hs
    split at hs <;> cases hs
    · exact .stay rfl rfl rfl rfl rfl rfl (by rw [hr]) (by rw [hr]) rfl (by rw [hr])
    · exact .stay rfl rfl rfl rfl rfl rfl (by rw [hr]; rfl) (by rw [hr]; rfl) rfl (by rw [hr]; rfl)

/-- **What a step does to the values.** -/
theorem step_valueStep (hi : SlotsInv N s ids live) (hs : Channel.step N s a = some s') :
    ValueStep s a s' := by
  cases a with
  | trySend q val | send q val =>
    simp only [Channel.step] at hs
    split at hs <;> cases hs
    rename_i hq
    exact .setSender (p := q) rfl (by rw [hq]; rfl) rfl rfl rfl rfl rfl rfl rfl
  | poll q waker =>
    simp only [Channel.step] at hs
    split at hs <;> cases hs
    rename_i hq
    exact poll_valueStep hq
  | cancel q =>
    simp only [Channel.step] at hs
    split at hs <;> cases hs
    rename_i hq
    exact .setSender (p := q) rfl (by rw [hq]; rfl) rfl rfl rfl rfl rfl rfl rfl
  | clone q r =>
    simp only [Channel.step] at hs
    split at hs <;> cases hs
    rename_i hr
    exact .setSender (p := r) rfl (by rw [hr]; rfl) rfl rfl rfl rfl rfl rfl rfl
  | dropSender q =>
    simp only [Channel.step] at hs
    split at hs
    · rename_i hq
      split at hs <;> cases hs
      · exact .stay rfl rfl rfl rfl rfl rfl rfl rfl rfl rfl
      all_goals exact .setSender (p := q) rfl (by rw [hq]; rfl) rfl rfl rfl rfl rfl rfl rfl
    · cases hs
  | sender q => exact senderStep_valueStep hi hs
  | tryRecv =>
    simp only [Channel.step] at hs
    split at hs <;> cases hs
    rename_i hr
    exact .stay rfl rfl rfl rfl rfl rfl (by rw [hr]; rfl) (by rw [hr]; rfl) rfl (by rw [hr]; rfl)
  | recv waker =>
    simp only [Channel.step] at hs
    split at hs <;> cases hs
    rename_i hr
    unfold State.register
    split <;>
      exact .stay rfl rfl rfl rfl rfl rfl (by rw [hr]; rfl) (by rw [hr]; rfl) rfl (by rw [hr]; rfl)
  | dropReceiver =>
    simp only [Channel.step] at hs
    split at hs <;> cases hs
    rename_i hr
    exact .stay rfl rfl rfl rfl rfl rfl (by rw [hr]; rfl) (by rw [hr]; rfl) rfl (by rw [hr]; rfl)
  | receiver => exact receiverStep_valueStep hs

/-! ## Every value is somewhere -/

/-- A slot that holds a value is waiting for its push, or for the receiver. -/
def Stored (s : State T) : Prop :=
  ∀ i m, s.chan.slots i = some m →
    i ∈ s.receiver.unread.toList ++ s.chan.readyq ∨ ∃ p, s.senders p = .push i m

/-- What was pushed was returned or dropped, or is in the channel. -/
def Conserved (s : State T) : Prop :=
  (s.pushed.map some).Perm (s.received.map some ++ s.discarded.map some ++ s.inside)

theorem Stored.step (h : Stored s) (hv : ValueStep s a s') : Stored s' := by
  cases hv with
  | keep _ _ _ _ hready hslots hunread _ hpush _ _ =>
    intro i m hi
    rw [hunread, hready]
    exact (h i m (hslots ▸ hi)).imp_right fun ⟨p, hp⟩ => ⟨p, hpush p i m hp⟩
  | write p i m hp _ heq =>
    subst heq
    intro j m' hj
    by_cases hji : j = i
    · subst hji
      have hj : Function.update s.chan.slots j (some m) j = some m' := hj
      rw [Function.update_self] at hj
      cases hj
      exact Or.inr ⟨p, Function.update_self ..⟩
    · have hj : Function.update s.chan.slots i (some m) j = some m' := hj
      rw [Function.update_of_ne hji] at hj
      refine (h j m' hj).imp_right ?_
      rintro ⟨q, hq⟩
      have hqp : q ≠ p := by
        rintro rfl
        rw [hp] at hq
        cases hq
      exact ⟨q, (Function.update_of_ne hqp ..).trans hq⟩
  | push p i m hp _ heq =>
    subst heq
    intro j m' hj
    rcases h j m' hj with hin | ⟨q, hq⟩
    · refine Or.inl ?_
      show j ∈ s.receiver.unread.toList ++ (s.chan.readyq ++ [i])
      rw [← List.append_assoc]
      exact List.mem_append_left _ hin
    · by_cases hqp : q = p
      · subst hqp
        rw [hp] at hq
        cases hq
        exact Or.inl (by simp)
      · exact Or.inr ⟨q, (Function.update_of_ne hqp ..).trans hq⟩
  | take i readyq st atPop _ hperm _ hunread _ _ hst _ heq =>
    subst heq
    intro j m' hj
    refine (h j m' hj).imp_left fun hin => ?_
    rw [hunread] at hin
    show j ∈ st.unread.toList ++ readyq
    rw [hst]
    exact hperm.mem_iff.mp hin
  | read i m _ hr hslot heq | discard i m _ hr hslot heq =>
    subst heq
    intro j m' hj
    have hj : Function.update s.chan.slots i none j = some m' := hj
    have hji : j ≠ i := by
      rintro rfl
      rw [Function.update_self] at hj
      cases hj
    rw [Function.update_of_ne hji] at hj
    refine (h j m' hj).imp_left fun hin => ?_
    rw [hr] at hin
    exact (List.mem_cons.mp hin).resolve_left hji
  | receive i m c woken _ hr hready hslots heq =>
    subst heq
    intro j m' hj
    refine (h j m' (hslots ▸ hj)).imp_left fun hin => ?_
    rw [hr] at hin
    show j ∈ [] ++ c.readyq
    rw [hready]
    exact hin

/-- A slot that is not in the channel changes. -/
theorem map_update_slots {l : List Nat} {i : Nat} {slots : Nat → Option (Msg T)}
    (v : Option (Msg T)) (hi : i ∉ l) : l.map (Function.update slots i v) = l.map slots := by
  refine List.map_congr_left fun j hj => ?_
  have hji : j ≠ i := by
    rintro rfl
    exact hi hj
  exact Function.update_of_ne hji ..

/-- What the receiver has taken out is not ready any more. -/
theorem not_ready_of_unread {i : Nat} (hi : SlotsInv N s ids live)
    (hunread : i ∈ s.items .unread) : i ∉ s.chan.readyq := by
  intro hready
  cases hi.owned.exclusive.unique .unread .ready i hunread hready

theorem Conserved.step (h : Conserved s) (hi : SlotsInv N s ids live) (hd : Delivery s)
    (hv : ValueStep s a s') : Conserved s' := by
  unfold Conserved State.inside at *
  cases hv with
  | keep _ hpushed hreceived hdiscarded hready hslots hunread hinHand _ _ _ =>
    rw [hpushed, hreceived, hdiscarded, hready, hslots, hunread, hinHand]
    exact h
  | write p i m hp _ heq =>
    subst heq
    -- the sender has the index, so it is neither ready nor with the receiver
    have htaken : i ∈ s.items (.taken p) := by simp [State.items, hp, Sender.taken]
    have hout : i ∉ s.receiver.unread.toList ++ s.chan.readyq := by
      intro hin
      rcases List.mem_append.mp hin with hin | hin
      · cases hi.owned.exclusive.unique (.taken p) .unread i htaken hin
      · cases hi.owned.exclusive.unique (.taken p) .ready i htaken hin
    show (s.pushed.map some).Perm (_ ++ (_ ++ List.map (Function.update s.chan.slots i (some m)) _))
    rw [setSender_receiver, map_update_slots _ hout]
    exact h
  | push p i m hp _ heq =>
    subst heq
    have hslot := hd.pipe.wrote p i m hp
    show ((s.pushed ++ [m]).map some).Perm (s.received.map some ++ s.discarded.map some ++
      (s.receiver.inHand.toList.map some ++
        (s.receiver.unread.toList ++ (s.chan.readyq ++ [i])).map s.chan.slots))
    rw [List.map_append]
    refine (h.append_right [some m]).trans (.of_eq ?_)
    simp [hslot]
  | take i readyq st atPop _ hperm _ hunread hinHand _ hst hstHand heq =>
    subst heq
    rw [hunread, hinHand] at h
    show (s.pushed.map some).Perm (_ ++ (st.inHand.toList.map some ++
      (st.unread.toList ++ readyq).map s.chan.slots))
    rw [hst, hstHand]
    exact h.trans (((hperm.map s.chan.slots).append_left _).append_left _)
  | read i m _ hr hslot heq =>
    subst heq
    have hunread : i ∈ s.items .unread := by simp [State.items, hr, Receiver.unread]
    have hout := not_ready_of_unread hi hunread
    rw [hr] at h
    show (s.pushed.map some).Perm
      (_ ++ ([some m] ++ s.chan.readyq.map (Function.update s.chan.slots i none)))
    rw [map_update_slots _ hout, ← hslot]
    exact h
  | receive i m c woken _ hr hready hslots heq =>
    subst heq
    rw [hr] at h
    show (s.pushed.map some).Perm ((s.received ++ [m]).map some ++ s.discarded.map some ++
      c.readyq.map c.slots)
    rw [hready, hslots]
    refine h.trans ?_
    simp only [Receiver.inHand, Receiver.unread, Option.toList_some, Option.toList_none,
      List.map_append, List.map_cons, List.map_nil, List.nil_append, List.append_assoc]
    exact (List.perm_append_comm_assoc _ _ _).append_left _
  | discard i m _ hr hslot heq =>
    subst heq
    have hunread : i ∈ s.items .unread := by simp [State.items, hr, Receiver.unread]
    have hout := not_ready_of_unread hi hunread
    rw [hr] at h
    show (s.pushed.map some).Perm (s.received.map some ++ (s.discarded ++ [m]).map some ++
      s.chan.readyq.map (Function.update s.chan.slots i none))
    rw [map_update_slots _ hout]
    refine h.trans (.of_eq ?_)
    simp [Receiver.inHand, Receiver.unread, hslot]

/-- What holds of the values in every reachable state. -/
structure Values (s : State T) : Prop where
  stored : Stored s
  conserved : Conserved s

theorem values_init : Values (machine T N).init where
  stored _ _ h := by cases h
  conserved := List.Perm.nil

theorem values_reachable (hN : N ≤ 255) (h : (machine T N).Reachable s) : Values s :=
  h.invariant (P := Values) values_init fun _ _ _ hr hv hs =>
    let ⟨_, _, hi⟩ := slotsInv_reachable hN hr
    let hstep := step_valueStep hi hs
    ⟨hv.stored.step hstep, hv.conserved.step hi (delivery_reachable hN hr) hstep⟩

/-- What was taken out was pushed. -/
theorem Conserved.mem_pushed (h : Conserved s) {m : Msg T} (hm : m ∈ s.received ++ s.discarded) :
    m ∈ s.pushed := by
  have hin : some m ∈ s.pushed.map some := by
    refine h.mem_iff.mpr (List.mem_append_left _ ?_)
    rw [← List.map_append]
    exact List.mem_map_of_mem hm
  obtain ⟨m', hm', heq⟩ := List.mem_map.mp hin
  exact Option.some.inj heq ▸ hm'

/-- It was taken out once. -/
theorem Conserved.nodup (h : Conserved s) (hd : Delivery s) :
    ((s.received ++ s.discarded).map Msg.op).Nodup := by
  have hops : ∀ l : List (Msg T), (l.map some).map (Option.map Msg.op) = (l.map Msg.op).map some := by
    intro l
    simp only [List.map_map]
    rfl
  have hnodup : ((s.pushed.map Msg.op).map some).Nodup :=
    hd.ledger.nodup.map fun _ _ => Option.some.inj
  rw [← hops, (h.map (Option.map Msg.op)).nodup_iff, List.map_append] at hnodup
  have hout := (List.nodup_append.mp hnodup).1
  rw [← List.map_append, hops] at hout
  exact hout.of_map some

/-- The count of the senders says when all endpoints are dropped. -/
theorem finished_of_numSenders (hN : N ≤ 255) (h : (machine T N).Reachable s)
    (hreceiver : s.receiver = .dropped) (hnum : s.chan.numSenders = 0) : s.Finished := by
  obtain ⟨ids, live, hi⟩ := slotsInv_reachable hN h
  have hlive : live = [] := List.length_eq_zero_iff.mp (hi.live.count.symm.trans hnum)
  refine ⟨hreceiver, fun p => ?_⟩
  have := hi.live.mem p
  rw [hlive] at this
  simpa using this

/-! ## Pushes behind the drain -/

/-- The step is no push behind the drain of `Receiver::drop`. -/
def State.InTime (s : State T) (a : Action T) : Prop :=
  s.pushes a = true → s.receiver.drained = false

/-- Behind the drain `readyq` is empty. -/
def Emptied (s : State T) : Prop := s.receiver.drained = true → s.chan.readyq = []

theorem Emptied.step (h : Emptied s) (ha : s.InTime a) (hv : ValueStep s a s') : Emptied s' := by
  intro hd
  cases hv with
  | keep _ _ _ _ hready _ _ _ _ _ hdrain =>
    rw [hready]
    exact (hdrain hd).elim h id
  | write p i m _ _ heq =>
    subst heq
    exact h hd
  | push p i m _ hpush heq =>
    subst heq
    rw [setSender_receiver, ha hpush] at hd
    cases hd
  | take i readyq st atPop _ _ _ _ _ hst _ _ heq =>
    subst heq
    cases hst.symm.trans hd
  | read i m _ _ _ heq | receive i m c woken _ _ _ _ heq | discard i m _ _ _ heq =>
    subst heq
    cases hd

/-- An index is left in `readyq` behind the drain. -/
def LeftBehind (s : State T) : Prop := s.receiver.drained = true ∧ s.chan.readyq ≠ []

/-- It stays there. -/
theorem LeftBehind.step (h : LeftBehind s) (hv : ValueStep s a s') : LeftBehind s' := by
  obtain ⟨hd, hne⟩ := h
  cases hv with
  | keep _ _ _ _ hready _ _ _ _ hdrain _ => exact ⟨hdrain hd, hready ▸ hne⟩
  | write p i m _ _ heq =>
    subst heq
    exact ⟨hd, hne⟩
  | push p i m _ _ heq =>
    subst heq
    exact ⟨hd, List.append_ne_nil_of_left_ne_nil hne [i]⟩
  | take i readyq st atPop _ _ hdr _ _ _ _ _ heq =>
    rw [hdr] at hd
    cases hd
  | read i m _ hr _ heq | receive i m c woken _ hr _ _ heq | discard i m _ hr _ heq =>
    rw [hr] at hd
    cases hd

/-- A push behind the drain leaves its index there. -/
theorem leftBehind_of_late (ha : ¬ s.InTime a) (hv : ValueStep s a s') : LeftBehind s' := by
  obtain ⟨hpush, hd⟩ := Classical.not_imp.mp ha
  rw [Bool.not_eq_false] at hd
  cases hv with
  | push p i m _ _ heq =>
    subst heq
    exact ⟨hd, List.append_ne_nil_of_right_ne_nil _ (List.cons_ne_nil i [])⟩
  | keep hno | write _ _ _ _ hno | take _ _ _ _ hno | read _ _ hno | receive _ _ _ _ hno
  | discard _ _ hno =>
    rw [hno] at hpush
    cases hpush

instance : DecidableRel (State.InTime (T := T)) := fun s a =>
  inferInstanceAs (Decidable (s.pushes a = true → s.receiver.drained = false))

/-- A run without a late push leaves nothing behind. -/
theorem emptied_of_along (hN : N ≤ 255) {as : List (Action T)}
    (hC : (machine T N).Along State.InTime (machine T N).init as)
    (h : (machine T N).exec (machine T N).init as = some s) : Emptied s := by
  have hstep : ∀ (s : State T) a t, (machine T N).Reachable s ∧ Emptied s → s.InTime a →
      (machine T N).step s a = some t → (machine T N).Reachable t ∧ Emptied t := by
    rintro s a t ⟨hr, he⟩ ha hst
    obtain ⟨_, _, hi⟩ := slotsInv_reachable hN hr
    exact ⟨hr.step hst, he.step ha (step_valueStep hi hst)⟩
  exact (hC.invariant hstep ⟨.init, fun _ => rfl⟩ h).2

/-- What is left behind once is left behind at the end of the run. -/
theorem LeftBehind.exec (hN : N ≤ 255) (hr : (machine T N).Reachable s) (h : LeftBehind s)
    {as : List (Action T)} (hrun : (machine T N).exec s as = some s') : LeftBehind s' := by
  have hstep : ∀ (s : State T) a t, (machine T N).Reachable s ∧ LeftBehind s →
      (machine T N).step s a = some t → (machine T N).Reachable t ∧ LeftBehind t := by
    rintro s a t ⟨hr, hl⟩ hst
    obtain ⟨_, _, hi⟩ := slotsInv_reachable hN hr
    exact ⟨hr.step hst, hl.step (step_valueStep hi hst)⟩
  exact (Machine.exec_invariant hstep ⟨hr, h⟩ hrun).2

/-- A run that leaves nothing behind has no late push. -/
theorem along_of_not_leftBehind (hN : N ≤ 255) (hr : (machine T N).Reachable s)
    {as : List (Action T)} (h : (machine T N).exec s as = some s') (hleft : ¬ LeftBehind s') :
    (machine T N).Along State.InTime s as := by
  induction as generalizing s with
  | nil => exact trivial
  | cons a as ih =>
    obtain ⟨t, ht, hrun⟩ := (machine T N).exec_cons_eq_some.mp h
    obtain ⟨_, _, hi⟩ := slotsInv_reachable hN hr
    have hnext := hr.step ht
    refine ⟨?_, fun t' ht' => ?_⟩
    · by_contra hlate
      exact hleft ((leftBehind_of_late hlate (step_valueStep hi ht)).exec hN hnext hrun)
    · obtain rfl : t = t' := Option.some.inj (ht.symm.trans ht')
      exact ih hnext hrun

/-! ## Stranded values -/

/-- Nothing left behind, nothing stranded. -/
theorem noneStranded_of_emptied (hN : N ≤ 255) (hr : (machine T N).Reachable s)
    (he : Emptied s) : NoneStranded s := by
  have hd := delivery_reachable hN hr
  obtain ⟨hstored, hconserved⟩ := values_reachable hN hr
  refine ⟨hconserved.nodup hd, fun k hk => ?_, fun k e hk => ?_, fun hfin i => ?_⟩
  · obtain ⟨m, hm, rfl⟩ := hd.ledger.ok k hk
    have hin := hconserved.mem_iff.mp (List.mem_map_of_mem (f := some) hm)
    rw [← List.map_append] at hin
    rcases List.mem_append.mp hin with hout | hinside
    · obtain ⟨m', hm', heq⟩ := List.mem_map.mp hout
      cases heq
      exact Or.inl (List.mem_map_of_mem hm')
    · refine Or.inr ⟨?_, m, rfl, hinside⟩
      -- behind the drain there is nothing in the channel
      by_contra hdrained
      rw [Bool.not_eq_false] at hdrained
      have hnil := he hdrained
      unfold State.inside at hinside
      rw [hnil] at hinside
      cases hrec : s.receiver with
      | wakeAll | dropped =>
        rw [hrec] at hinside
        cases hinside
      | _ =>
        rw [hrec] at hdrained
        cases hdrained
  · obtain ⟨hcall, hnot⟩ := hd.ledger.error k e hk
    refine ⟨hcall, fun hin => ?_⟩
    obtain ⟨m, hm, hop⟩ := List.mem_map.mp hin
    exact hnot m (hconserved.mem_pushed hm) hop
  · rw [Option.eq_none_iff_forall_ne_some]
    intro m hslot
    rcases hstored i m hslot with hin | ⟨p, hp⟩
    · rw [he (by rw [hfin.receiver]; rfl), hfin.receiver] at hin
      cases hin
    · have hlive := hfin.senders p
      rw [hp] at hlive
      cases hlive

/-- In the end, an index left behind is a slot with a value. -/
theorem NoneStranded.not_leftBehind (h : NoneStranded s) (hi : SlotsInv N s ids live)
    (hfin : s.Finished) : ¬ LeftBehind s := by
  rintro ⟨-, hne⟩
  obtain ⟨i, hin⟩ := List.exists_mem_of_ne_nil _ hne
  have hfull := hi.owned.stored .ready i hin
  rw [h.slots hfin i] at hfull
  cases hfull

/--
**No value is stranded as long as no index is pushed behind the drain.** Every state of such a run
is without stranded values; and a run at whose end all endpoints are dropped strands none exactly
if it is such a run.
-/
theorem none_stranded_iff (hN : N ≤ 255) {as : List (Action T)}
    (h : (machine T N).exec (machine T N).init as = some s) :
    ((machine T N).Along State.InTime (machine T N).init as → NoneStranded s) ∧
      (s.Finished →
        (NoneStranded s ↔ (machine T N).Along State.InTime (machine T N).init as)) := by
  have hr := Machine.reachable_iff_exec.mpr ⟨as, h⟩
  have henough : (machine T N).Along State.InTime (machine T N).init as → NoneStranded s :=
    fun hC => noneStranded_of_emptied hN hr (emptied_of_along hN hC h)
  refine ⟨henough, fun hfin => ⟨fun hnone => ?_, henough⟩⟩
  obtain ⟨ids, live, hi⟩ := slotsInv_reachable hN hr
  exact along_of_not_leftBehind hN .init h (hnone.not_leftBehind hi hfin)

/-- The receiver drops the value that was sent, and then the sender is dropped. -/
def sentAndDropped : List (Action Nat) :=
  [.trySend 0 5] ++ List.replicate 6 (.sender 0) ++
    [.dropReceiver] ++ List.replicate 4 .receiver ++ [.dropSender 0, .sender 0]

theorem none_stranded_iff_dropped :
    ∃ s, (machine Nat 1).exec (machine Nat 1).init sentAndDropped = some s ∧
      s.discarded.map Msg.val = [5] ∧ NoneStranded s := by
  have hrun : ((machine Nat 1).exec (machine Nat 1).init sentAndDropped).map
      (fun s => s.discarded.map Msg.val) = some [5] := by decide +kernel
  obtain ⟨s, hs, hobs⟩ := Option.map_eq_some_iff.mp hrun
  exact ⟨s, hs, hobs, (none_stranded_iff (N := 1) (by decide) hs).1 (by decide +kernel)⟩

/-- The receiver is dropped while `try_send` is behind its look at the flag. -/
def droppedMeanwhile : List (Action Nat) :=
  [.trySend 0 7, .sender 0, .sender 0, .dropReceiver, .receiver, .receiver] ++
    List.replicate 4 (.sender 0) ++ [.dropSender 0, .sender 0]

/-- `try_send` returns `Ok`, all endpoints are dropped, and the value is in its slot. -/
theorem value_stranded :
    ∃ s, (machine Nat 1).exec (machine Nat 1).init droppedMeanwhile = some s ∧
      s.results.map (fun r => (r.1, r.2.isOk)) = [(0, true)] ∧ s.Finished ∧ ¬ NoneStranded s := by
  have hrun : ((machine Nat 1).exec (machine Nat 1).init droppedMeanwhile).map
      (fun s => (s.results.map (fun r => (r.1, r.2.isOk)), decide (s.receiver = .dropped),
        s.chan.numSenders, s.chan.slots 0)) =
      some ([(0, true)], true, 0, some ⟨0, 0, 7⟩) := by decide +kernel
  obtain ⟨s, hs, hobs⟩ := Option.map_eq_some_iff.mp hrun
  simp only [Prod.mk.injEq, decide_eq_true_eq] at hobs
  obtain ⟨hresults, hreceiver, hnum, hslot⟩ := hobs
  have hfin : s.Finished := finished_of_numSenders (N := 1) (by decide)
    (Machine.reachable_iff_exec.mpr ⟨droppedMeanwhile, hs⟩) hreceiver hnum
  refine ⟨s, hs, hresults, hfin, fun hnone => ?_⟩
  rw [hnone.slots hfin 0] at hslot
  cases hslot

end Rticx.AsyncRt.Channel
