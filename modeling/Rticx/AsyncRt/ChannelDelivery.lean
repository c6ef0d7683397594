import Rticx.AsyncRt.ChannelSlots

/-!
# What a channel delivers

The values go through slots, the indices through two queues and through the cells of waiting
sends; what comes out is a prefix of what was pushed. The books are kept in two parts: the calls of
the senders with what they return, and the values between a push and the receiver.
-/

namespace Rticx.AsyncRt.Channel

open Lib

variable {T : Type} {N : Nat}

/-! ## The calls of the senders -/

/-- The message of the call the sender is in, and whether its index was pushed. -/
def Sender.job : Sender T → Option (Msg T × Bool)
  | .wake m => some (m, true)
  | .tryWaitQueue m | .tryClosed m | .tryPop m | .sending m _ | .unlink m _ | .returnSlot m _
  | .write _ m | .push _ m => some (m, false)
  | .absent | .idle | .dropWake | .dropped => none

/-- The calls, what they returned and what they pushed agree. -/
structure Ledger (calls : List (Msg T)) (results : List (Nat × Except (SendError (Msg T)) Unit))
    (pushed : List (Msg T)) (senders : Nat → Sender T) : Prop where
  numbered : ∀ (k : Nat) (m : Msg T), calls[k]? = some m → m.op = k
  current : ∀ p m b, (senders p).job = some (m, b) →
    calls[m.op]? = some m ∧ m.sender = p ∧ ∀ r ∈ results, r.1 ≠ m.op
  unsent : ∀ p m, (senders p).job = some (m, false) → ∀ m' ∈ pushed, m'.sender = p → m'.op < m.op
  sent : ∀ p m, (senders p).job = some (m, true) → m ∈ pushed
  called : ∀ m ∈ pushed, calls[m.op]? = some m
  ordered : pushed.Pairwise fun (m m' : Msg T) => m.sender = m'.sender → m.op < m'.op
  ok : ∀ k, (k, .ok ()) ∈ results → ∃ m ∈ pushed, m.op = k
  error : ∀ k e, (k, .error e) ∈ results → calls[k]? = some e.val ∧ ∀ m ∈ pushed, m.op ≠ k
  settled : ∀ m ∈ pushed, (m.op, .ok ()) ∈ results ∨ (senders m.sender).job = some (m, true)

section Ledger

variable {calls : List (Msg T)} {results : List (Nat × Except (SendError (Msg T)) Unit)}
variable {pushed : List (Msg T)} {senders senders' : Nat → Sender T}
variable {p : Nat} {m : Msg T} {st : Sender T}

/-- Pushed messages with one number are one message. -/
theorem Ledger.eq_of_op (h : Ledger calls results pushed senders) {m m' : Msg T}
    (hm : calls[m.op]? = some m) (hm' : m' ∈ pushed) (hop : m'.op = m.op) : m' = m := by
  have := h.called m' hm'
  rw [hop, hm] at this
  exact (Option.some.inj this).symm

/-- An unsent message was not pushed. -/
theorem Ledger.not_pushed (h : Ledger calls results pushed senders)
    (hp : (senders p).job = some (m, false)) : ∀ m' ∈ pushed, m'.op ≠ m.op := by
  intro m' hm' hop
  obtain ⟨hcall, hsender, -⟩ := h.current p m false hp
  obtain rfl := h.eq_of_op hcall hm' hop
  exact Nat.lt_irrefl _ (h.unsent p m' hp m' hm' hsender)

/-- Senders that stay in their calls. -/
theorem Ledger.congr (h : Ledger calls results pushed senders)
    (hjob : ∀ q, (senders' q).job = (senders q).job) : Ledger calls results pushed senders' where
  numbered := h.numbered
  current q := hjob q ▸ h.current q
  unsent q := hjob q ▸ h.unsent q
  sent q := hjob q ▸ h.sent q
  called := h.called
  ordered := h.ordered
  ok := h.ok
  error := h.error
  settled m hm := hjob m.sender ▸ h.settled m hm

/-- A sender moves on in its call. -/
theorem Ledger.setSender (h : Ledger calls results pushed senders)
    (hst : st.job = (senders p).job) :
    Ledger calls results pushed (Function.update senders p st) :=
  h.congr (update_same Sender.job hst)

/-- A new call. -/
theorem Ledger.call (h : Ledger calls results pushed senders) (hp : (senders p).job = none)
    (hop : m.op = calls.length) (hsender : m.sender = p) (hst : st.job = some (m, false)) :
    Ledger (calls ++ [m]) results pushed (Function.update senders p st) := by
  have hold : ∀ {k : Nat} {m' : Msg T}, calls[k]? = some m' → (calls ++ [m])[k]? = some m' := by
    intro k m' hk
    rw [List.getElem?_append_left (List.getElem?_eq_some_iff.mp hk).1, hk]
  have hlt : ∀ m' ∈ pushed, m'.op < calls.length := fun m' hm' =>
    (List.getElem?_eq_some_iff.mp (h.called m' hm')).1
  have hfresh : ∀ r ∈ results, r.1 < calls.length := by
    rintro ⟨k, r⟩ hr
    cases r with
    | ok =>
      obtain ⟨m', hm', rfl⟩ := h.ok k hr
      exact hlt m' hm'
    | error e => exact (List.getElem?_eq_some_iff.mp (h.error k e hr).1).1
  have hne : ∀ {q : Nat}, q ≠ p → (Function.update senders p st q).job = (senders q).job :=
    fun hq => congrArg Sender.job (Function.update_of_ne hq ..)
  refine ⟨fun k m' hk => ?_, fun q m' b hq => ?_, fun q m' hq => ?_, fun q m' hq => ?_,
    fun m' hm' => hold (h.called m' hm'), h.ordered, h.ok,
    fun k e hk => ⟨hold (h.error k e hk).1, (h.error k e hk).2⟩, fun m' hm' => ?_⟩
  · rcases Nat.lt_or_ge k calls.length with hk' | hk'
    · rw [List.getElem?_append_left hk'] at hk
      exact h.numbered k m' hk
    · rw [List.getElem?_append_right hk', List.getElem?_singleton] at hk
      split at hk <;> cases hk
      omega
  · by_cases hqp : q = p
    · subst hqp
      rw [Function.update_self, hst] at hq
      cases hq
      refine ⟨by rw [hop, List.getElem?_concat_length], hsender, fun r hr => ?_⟩
      exact Nat.ne_of_lt (hop ▸ hfresh r hr)
    · rw [hne hqp] at hq
      exact ⟨hold (h.current q m' b hq).1, (h.current q m' b hq).2⟩
  · by_cases hqp : q = p
    · subst hqp
      rw [Function.update_self, hst] at hq
      cases hq
      intro m' hm' _
      exact hop ▸ hlt m' hm'
    · rw [hne hqp] at hq
      exact h.unsent q m' hq
  · by_cases hqp : q = p
    · subst hqp
      rw [Function.update_self, hst] at hq
      cases hq
    · rw [hne hqp] at hq
      exact h.sent q m' hq
  · refine (h.settled m' hm').imp_right fun hs => ?_
    have hqp : m'.sender ≠ p := by
      rintro rfl
      rw [hp] at hs
      cases hs
    rw [hne hqp, hs]

/-- A call returns, or its future is dropped. -/
theorem Ledger.leave (h : Ledger calls results pushed senders) {b : Bool}
    (hp : (senders p).job = some (m, b)) (hst : st.job = none)
    {rs : List (Nat × Except (SendError (Msg T)) Unit)} (hrs : ∀ r ∈ rs, r.1 = m.op)
    (hok : (m.op, .ok ()) ∈ rs ↔ b = true) (herr : ∀ k e, (k, .error e) ∈ rs → b = false ∧ e.val = m) :
    Ledger calls (results ++ rs) pushed (Function.update senders p st) := by
  obtain ⟨hcall, hsender, hnew⟩ := h.current p m b hp
  have hother : ∀ {q : Nat} {j}, (Function.update senders p st q).job = some j →
      q ≠ p ∧ (senders q).job = some j := by
    intro q j hq
    by_cases hqp : q = p
    · subst hqp
      rw [Function.update_self, hst] at hq
      cases hq
    · rw [Function.update_of_ne hqp] at hq
      exact ⟨hqp, hq⟩
  refine ⟨h.numbered, fun q m' c hq => ?_, fun q m' hq => h.unsent q m' (hother hq).2,
    fun q m' hq => h.sent q m' (hother hq).2, h.called, h.ordered, fun k hk => ?_,
    fun k e hk => ?_, fun m' hm' => ?_⟩
  · obtain ⟨hqp, hq⟩ := hother hq
    obtain ⟨hcall', hsender', hnew'⟩ := h.current q m' c hq
    refine ⟨hcall', hsender', fun r hr => ?_⟩
    rcases List.mem_append.mp hr with hr | hr
    · exact hnew' r hr
    · -- two senders are never in the same call
      rw [hrs r hr]
      intro hop
      rw [← hop, hcall] at hcall'
      obtain rfl := Option.some.inj hcall'
      exact hqp (hsender'.symm.trans hsender)
  · rcases List.mem_append.mp hk with hk | hk
    · exact h.ok k hk
    · obtain rfl : k = m.op := hrs _ hk
      rw [hok.mp hk] at hp
      exact ⟨m, h.sent p m hp, rfl⟩
  · rcases List.mem_append.mp hk with hk | hk
    · exact h.error k e hk
    · obtain rfl : k = m.op := hrs _ hk
      obtain ⟨rfl, rfl⟩ := herr _ e hk
      exact ⟨hcall, h.not_pushed hp⟩
  · rcases h.settled m' hm' with hr | hq
    · exact Or.inl (List.mem_append_left _ hr)
    · by_cases hqp : m'.sender = p
      · rw [hqp, hp] at hq
        cases hq
        exact Or.inl (List.mem_append_right _ (hok.mpr rfl))
      · rw [Function.update_of_ne hqp]
        exact Or.inr hq

/-- `send_footer` pushes. -/
theorem Ledger.push (h : Ledger calls results pushed senders)
    (hp : (senders p).job = some (m, false)) (hst : st.job = some (m, true)) :
    Ledger calls results (pushed ++ [m]) (Function.update senders p st) := by
  obtain ⟨hcall, hsender, hnew⟩ := h.current p m false hp
  have hne : ∀ {q : Nat}, q ≠ p → (Function.update senders p st q).job = (senders q).job :=
    fun hq => congrArg Sender.job (Function.update_of_ne hq ..)
  refine ⟨h.numbered, fun q m' b hq => ?_, fun q m' hq => ?_, fun q m' hq => ?_,
    fun m' hm' => ?_, ?_, fun k hk => ?_, fun k e hk => ⟨(h.error k e hk).1, fun m' hm' => ?_⟩,
    fun m' hm' => ?_⟩
  · by_cases hqp : q = p
    · subst hqp
      rw [Function.update_self, hst] at hq
      cases hq
      exact ⟨hcall, hsender, hnew⟩
    · exact h.current q m' b (hne hqp ▸ hq)
  · have hqp : q ≠ p := by
      rintro rfl
      rw [Function.update_self, hst] at hq
      cases hq
    intro m'' hm'' hs
    rcases List.mem_append.mp hm'' with hm'' | hm''
    · exact h.unsent q m' (hne hqp ▸ hq) m'' hm'' hs
    · rw [List.mem_singleton.mp hm'', hsender] at hs
      exact absurd hs.symm hqp
  · by_cases hqp : q = p
    · subst hqp
      rw [Function.update_self, hst] at hq
      cases hq
      exact List.mem_append_right _ List.mem_cons_self
    · exact List.mem_append_left _ (h.sent q m' (hne hqp ▸ hq))
  · rcases List.mem_append.mp hm' with hm' | hm'
    · exact h.called m' hm'
    · rw [List.mem_singleton.mp hm']
      exact hcall
  · refine List.pairwise_append.mpr ⟨h.ordered, List.pairwise_singleton _ _, fun a ha b hb => ?_⟩
    rw [List.mem_singleton.mp hb, hsender]
    exact h.unsent p m hp a ha
  · obtain ⟨m', hm', hop⟩ := h.ok k hk
    exact ⟨m', List.mem_append_left _ hm', hop⟩
  · rcases List.mem_append.mp hm' with hm' | hm'
    · exact (h.error k e hk).2 m' hm'
    · rw [List.mem_singleton.mp hm']
      exact (hnew _ hk).symm
  · rcases List.mem_append.mp hm' with hm' | hm'
    · refine (h.settled m' hm').imp_right fun hq => ?_
      have hqp : m'.sender ≠ p := by
        intro hqp
        rw [hqp, hp] at hq
        cases hq
      rw [hne hqp, hq]
    · rw [List.mem_singleton.mp hm', hsender, Function.update_self]
      exact Or.inr hst

end Ledger

/-! ## From a push to the receiver -/

/-- The values of the index in the hands of the receiver. -/
def Receiver.hand (slots : Nat → Option (Msg T)) : Receiver T → List (Option (Msg T))
  | .read i => [slots i]
  | .returnSlot _ m => [some m]
  | _ => []

/--
A slot holds what its sender wrote, and what was pushed is what was received, what the receiver
holds and what is ready.
-/
structure Pipe (slots : Nat → Option (Msg T)) (readyq : List Nat) (receiver : Receiver T)
    (senders : Nat → Sender T) (pushed received : List (Msg T)) (dropped : Bool) (atPop : Nat) :
    Prop where
  wrote : ∀ p i m, senders p = .push i m → slots i = some m
  flow : dropped = false →
    pushed.map some = received.map some ++ receiver.hand slots ++ readyq.map slots
  delivered : received <+: pushed
  closing : ∀ cx, receiver = .isClosed cx → received.length = atPop

section Pipe

variable {slots : Nat → Option (Msg T)} {readyq : List Nat} {receiver : Receiver T}
variable {senders : Nat → Sender T} {pushed received : List (Msg T)} {dropped : Bool}
variable {atPop p i : Nat} {m : Msg T} {st : Sender T}

/-- A sender moves on, and if it comes to a push it wrote the slot. -/
theorem Pipe.setSender (h : Pipe slots readyq receiver senders pushed received dropped atPop)
    (hst : ∀ i m, st = .push i m → slots i = some m) :
    Pipe slots readyq receiver (Function.update senders p st) pushed received dropped atPop where
  wrote q i m hq := by
    by_cases hqp : q = p
    · subst hqp
      rw [Function.update_self] at hq
      exact hst i m hq
    · rw [Function.update_of_ne hqp] at hq
      exact h.wrote q i m hq
  flow := h.flow
  delivered := h.delivered
  closing := h.closing

/-- The same for a sender that does not come to a push. -/
theorem Pipe.setSender_of_written (h : Pipe slots readyq receiver senders pushed received dropped atPop)
    (hst : st.written = none) :
    Pipe slots readyq receiver (Function.update senders p st) pushed received dropped atPop := by
  refine h.setSender fun i m hpush => ?_
  rw [hpush] at hst
  cases hst

/-- A slot changes that is not in the pipe. -/
theorem Pipe.setSlot (h : Pipe slots readyq receiver senders pushed received dropped atPop)
    (hready : i ∉ readyq) (hunread : receiver.unread ≠ some i)
    (hwritten : ∀ q, (senders q).written ≠ some i) (v : Option (Msg T)) :
    Pipe (Function.update slots i v) readyq receiver senders pushed received dropped atPop where
  wrote q j m hq := by
    have hj : j ≠ i := by
      rintro rfl
      exact hwritten q (by rw [hq]; rfl)
    rw [Function.update_of_ne hj]
    exact h.wrote q j m hq
  flow hd := by
    have hhand : receiver.hand (Function.update slots i v) = receiver.hand slots := by
      cases receiver with
      | read j =>
        have hj : j ≠ i := by
          rintro rfl
          exact hunread rfl
        exact congrArg (fun o => [o]) (Function.update_of_ne hj v slots)
      | _ => rfl
    have hmap : readyq.map (Function.update slots i v) = readyq.map slots := by
      refine List.map_congr_left fun j hj => ?_
      have hji : j ≠ i := fun hji => hready (hji ▸ hj)
      exact Function.update_of_ne hji v slots
    rw [hhand, hmap]
    exact h.flow hd
  delivered := h.delivered
  closing := h.closing

/-- The receiver moves on with what it holds. -/
theorem Pipe.setReceiver (h : Pipe slots readyq receiver senders pushed received dropped atPop)
    (st : Receiver T) (hst : st.hand slots = receiver.hand slots)
    (hclosing : ∀ cx, st ≠ .isClosed cx) (atPop' : Nat) :
    Pipe slots readyq st senders pushed received dropped atPop' where
  wrote := h.wrote
  flow hd := by
    rw [hst]
    exact h.flow hd
  delivered := h.delivered
  closing cx hc := absurd hc (hclosing cx)

/-- `readyq.pop_front()` finds nothing: everything pushed so far was received. -/
theorem Pipe.popEmpty (h : Pipe slots [] receiver senders pushed received false atPop)
    (hhand : receiver.hand slots = []) {cx : Option (Waker × Nat)} :
    Pipe slots [] (.isClosed cx) senders pushed received false pushed.length where
  wrote := h.wrote
  flow hd := by
    rw [h.flow hd, hhand]
    rfl
  delivered := h.delivered
  closing cx _ := by
    have := congrArg List.length (h.flow rfl)
    simpa [hhand] using this.symm

/-- `readyq.push_back_unchecked(idx)` -/
theorem Pipe.push (h : Pipe slots readyq receiver senders pushed received dropped atPop)
    (hslot : slots i = some m) :
    Pipe slots (readyq ++ [i]) receiver senders (pushed ++ [m]) received dropped atPop where
  wrote := h.wrote
  flow hd := by
    rw [List.map_append, h.flow hd, List.map_append, ← List.append_assoc]
    simp [hslot]
  delivered := h.delivered.trans (List.prefix_append pushed [m])
  closing := h.closing

/-- `readyq.pop_front()` -/
theorem Pipe.pop (h : Pipe slots (i :: readyq) receiver senders pushed received dropped atPop)
    (hhand : receiver.hand slots = []) (atPop' : Nat) :
    Pipe slots readyq (.read i) senders pushed received dropped atPop' where
  wrote := h.wrote
  flow hd := by
    rw [h.flow hd, hhand]
    simp [Receiver.hand]
  delivered := h.delivered
  closing := nofun

/-- What the receiver holds is received. -/
theorem Pipe.receive (h : Pipe slots readyq (.returnSlot i m) senders pushed received false atPop) :
    Pipe slots readyq .idle senders pushed (received ++ [m]) false atPop where
  wrote := h.wrote
  flow hd := by
    rw [h.flow hd]
    simp [Receiver.hand]
  delivered := by
    have hflow := h.flow rfl
    have hmap : ((received ++ [m]).map some) ++ readyq.map slots = pushed.map some := by
      rw [hflow]
      simp [Receiver.hand]
    obtain ⟨l, r, hl, hr, -⟩ := List.map_eq_append_iff.mp hmap.symm
    have := List.map_injective_iff.mpr (fun _ _ => Option.some.inj) hr
    exact ⟨r, by rw [hl, ← this]⟩
  closing := nofun

end Pipe

/-! ## Steps -/

/-- The books of a state. -/
structure Delivery (s : State T) : Prop where
  ledger : Ledger s.calls s.results s.pushed s.senders
  pipe : Pipe s.chan.slots s.chan.readyq s.receiver s.senders s.pushed s.received
    s.chan.receiverDropped s.pushedAtPop

variable {s s' : State T} {ids live : List Nat} {p : Nat} {m : Msg T}

/-- A sender moves on in its call and does not write a slot. -/
theorem Delivery.setSender (h : Delivery s) (p : Nat) (st : Sender T)
    (hjob : st.job = (s.senders p).job)
    (hst : st.written = none) : Delivery (s.setSender p st) :=
  ⟨h.ledger.setSender hjob, h.pipe.setSender_of_written hst⟩

/-- A call returns an error, with the value it was called with. -/
theorem Delivery.ret_error (h : Delivery s) (hjob : (s.senders p).job = some (m, false))
    {e : SendError (Msg T)} (he : e.val = m) : Delivery (s.ret p m (.error e)) where
  ledger := by
    refine h.ledger.leave hjob rfl (fun r hr => ?_) (by simp) fun k e' hk => ?_
    · rw [List.mem_singleton.mp hr]
    · cases List.mem_singleton.mp hk
      exact ⟨rfl, he⟩
  pipe := h.pipe.setSender_of_written rfl

/-- A poll moves its sender on in its call, and touches neither `readyq` nor a slot. -/
theorem poll_frame {polled : Option Waker} (waker : Waker)
    (hp : s.senders p = .sending m polled) :
    ∃ st : Sender T, st.job = some (m, false) ∧ st.written = none ∧
      ∃ chan fault, poll s p waker m = { s.setSender p st with chan := chan, fault := fault } ∧
        chan.slots = s.chan.slots ∧ chan.readyq = s.chan.readyq ∧
        chan.receiverDropped = s.chan.receiverDropped := by
  unfold poll
  cases hd : s.chan.receiverDropped with
  | true => exact ⟨.unlink m .closed, rfl, rfl, s.chan, s.fault, rfl, rfl, rfl, hd⟩
  | false =>
    cases hlink : s.chan.waitQueue.links p with
    | some link =>
      cases hpop : link.isPopped with
      | false =>
        simp only [hpop, Bool.false_eq_true, if_false]
        exact ⟨.sending m (some waker), rfl, rfl, s.chan, s.fault, rfl, rfl, rfl, hd⟩
      | true =>
        simp only [hpop, Bool.false_eq_true, if_true, if_false]
        exact ⟨_, rfl, rfl, _, s.fault, rfl, rfl, rfl, hd⟩
    | none =>
      simp only [Bool.false_eq_true, if_false]
      split
      · exact ⟨.sending m (some waker), rfl, rfl, _, s.fault, rfl, rfl, rfl, hd⟩
      · split
        · exact ⟨_, rfl, rfl, _, s.fault, rfl, rfl, rfl, hd⟩
        · have hsame : s.setSender p (.sending m polled) = s := by
            rw [State.setSender, ← hp, Function.update_eq_self]
          exact ⟨.sending m polled, rfl, rfl, s.chan, true, by rw [hsame]; rfl, rfl, rfl, hd⟩

theorem Delivery.poll (h : Delivery s) {polled : Option Waker} {waker : Waker}
    (hp : s.senders p = .sending m polled) : Delivery (Channel.poll s p waker m) := by
  obtain ⟨st, hjob, hst, chan, fault, heq, hslots, hready, hdrop⟩ := poll_frame waker hp
  have hset := h.setSender p st (by rw [hjob, hp]; rfl) hst
  rw [heq]
  refine ⟨hset.ledger, ?_⟩
  show Pipe chan.slots chan.readyq _ _ _ _ chan.receiverDropped _
  rw [hslots, hready, hdrop]
  exact hset.pipe

/-- The send future is gone. -/
theorem Delivery.finish (h : Delivery s) {out : Outcome}
    (hp : s.senders p = .returnSlot m out) : Delivery (s.finish p m out) := by
  have hjob : (s.senders p).job = some (m, false) := by rw [hp]; rfl
  cases out with
  | cancelled =>
    refine ⟨?_, h.pipe.setSender_of_written rfl⟩
    show Ledger s.calls s.results s.pushed _
    rw [← List.append_nil s.results]
    exact h.ledger.leave hjob rfl (by simp) (by simp) (by simp)
  | closed =>
    have := h.ret_error hjob (e := .noReceiver m) rfl
    exact ⟨this.ledger, this.pipe⟩
  | granted i =>
    have := h.setSender p (.write i m) (by rw [hp]; rfl) rfl
    exact ⟨this.ledger, this.pipe⟩

/-- **A critical section of a sender.** -/
theorem Delivery.senderStep (hi : SlotsInv N s ids live) (h : Delivery s)
    (hs : Channel.senderStep N s p = some s') : Delivery s' := by
  unfold Channel.senderStep at hs
  cases hp : s.senders p with
  | absent | idle | sending m w | dropped => rw [hp] at hs; cases hs
  | tryWaitQueue m =>
    simp only [hp] at hs
    split at hs <;> cases hs
    · exact h.ret_error (by rw [hp]; rfl) rfl
    · exact h.setSender p _ (by rw [hp]; rfl) rfl
  | tryClosed m =>
    simp only [hp] at hs
    split at hs <;> cases hs
    · exact h.ret_error (by rw [hp]; rfl) rfl
    · exact h.setSender p _ (by rw [hp]; rfl) rfl
  | tryPop m =>
    simp only [hp] at hs
    split at hs <;> cases hs
    · rename_i idx freeq hfree
      have := h.setSender p (.write idx m) (by rw [hp]; rfl) rfl
      exact ⟨this.ledger, this.pipe⟩
    · exact h.ret_error (by rw [hp]; rfl) rfl
  | unlink m out =>
    have := h.setSender p (.returnSlot m out) (by rw [hp]; rfl) rfl
    simp only [hp] at hs
    split at hs <;> cases hs
    · exact ⟨this.ledger, this.pipe⟩
    · exact this
  | returnSlot m out =>
    simp only [hp] at hs
    cases hcell : s.chan.cells p with
    | none =>
      simp only [hcell, Option.some.injEq] at hs
      subst hs
      exact h.finish hp
    | some slot =>
      obtain ⟨chan, woken, _, hret, -, -⟩ := hi.returnCell hp hcell
      simp only [hcell, hret, Option.some.injEq] at hs
      subst hs
      -- what goes back is a slot, and no message
      have hset : Delivery { s with chan := chan, woken := s.woken ++ woken.toList } := by
        refine ⟨h.ledger, ?_⟩
        show Pipe chan.slots chan.readyq _ _ _ _ chan.receiverDropped _
        rw [returnFreeSlot_frame hret]
        exact h.pipe
      exact hset.finish hp
  | write idx m =>
    have htaken : idx ∈ s.items (.taken p) := by simp [State.items, hp, Sender.taken]
    have hnot : ∀ P, P ≠ .taken p → idx ∉ s.items P := fun P hP hin =>
      hP (hi.owned.exclusive.unique P (.taken p) idx hin htaken)
    simp only [hp] at hs
    split at hs <;> cases hs
    · refine ⟨h.ledger.setSender (by rw [hp]; rfl), ?_⟩
      -- nobody else has the index, so no other message is overwritten
      have hset := h.pipe.setSlot (i := idx) (hnot .ready (by simp))
        (fun hu => hnot .unread (by simp) (by simp [State.items, hu]))
        (fun q hq => hnot (.written q) (by simp) (by simp [State.items, hq])) (some m)
      refine hset.setSender fun i m' hpush => ?_
      cases hpush
      exact Function.update_self ..
    · exact ⟨h.ledger, h.pipe⟩
  | push idx m =>
    simp only [hp] at hs
    split at hs <;> cases hs
    · exact ⟨h.ledger.push (by rw [hp]; rfl) rfl,
        (h.pipe.push (h.pipe.wrote p idx m hp)).setSender_of_written rfl⟩
    · exact ⟨h.ledger, h.pipe⟩
  | wake m =>
    simp only [hp, Option.some.injEq] at hs
    subst hs
    refine ⟨h.ledger.leave (p := p) (m := m) (b := true) (by rw [hp]; rfl) rfl (fun r hr => ?_)
      (by simp) (by simp), h.pipe.setSender_of_written rfl⟩
    rw [List.mem_singleton.mp hr]
  | dropWake =>
    simp only [hp, Option.some.injEq] at hs
    subst hs
    have := h.setSender p .dropped (by rw [hp]; rfl) rfl
    exact ⟨this.ledger, this.pipe⟩

/-- **A critical section of the receiver.** -/
theorem Delivery.receiverStep (hi : SlotsInv N s ids live) (h : Delivery s)
    (hs : Channel.receiverStep N s = some s') : Delivery s' := by
  have hnot : ∀ {i : Nat}, s.receiver.unread = some i → ∀ P, P ≠ .unread → i ∉ s.items P :=
    fun {i} hu P hP hin =>
      hP (hi.owned.exclusive.unique P .unread i hin (by simp [State.items, hu]))
  unfold Channel.receiverStep at hs
  cases hr : s.receiver with
  | idle | dropped => rw [hr] at hs; cases hs
  | pop cx =>
    have hdrop : s.chan.receiverDropped = false := hi.gone.trans (by rw [hr]; rfl)
    have hpipe := h.pipe
    simp only [hr] at hs
    split at hs <;> cases hs
    · rename_i idx readyq hready
      rw [hready] at hpipe
      exact ⟨h.ledger, hpipe.pop (by rw [hr]; rfl) _⟩
    · rename_i hready
      rw [hready, hdrop] at hpipe
      refine ⟨h.ledger, ?_⟩
      show Pipe _ s.chan.readyq _ _ _ _ s.chan.receiverDropped _
      rw [hready, hdrop]
      exact hpipe.popEmpty (by rw [hr]; rfl)
  | read idx =>
    have hnot := hnot (i := idx) (by rw [hr]; rfl)
    simp only [hr] at hs
    split at hs <;> cases hs
    · rename_i m hslot
      -- the message is now in the hand of the receiver
      have hread := h.pipe.setReceiver (.returnSlot idx m) (by
        rw [hr]
        exact congrArg (fun o => [o]) hslot.symm) (by simp) s.pushedAtPop
      exact ⟨h.ledger, hread.setSlot (hnot .ready (by simp)) (by simp [Receiver.unread])
        (fun q hq => hnot (.written q) (by simp) (by simp [State.items, hq])) none⟩
    · exact ⟨h.ledger, hr ▸ h.pipe⟩
  | returnSlot idx m =>
    have hdrop : s.chan.receiverDropped = false := hi.gone.trans (by rw [hr]; rfl)
    have hpipe := h.pipe
    obtain ⟨chan, woken, _, hret, -⟩ := hi.returnRead hr
    simp only [hr, hret, Option.some.injEq] at hs
    subst hs
    rw [hr, hdrop] at hpipe
    refine ⟨h.ledger, ?_⟩
    show Pipe chan.slots chan.readyq _ _ _ _ chan.receiverDropped _
    rw [returnFreeSlot_frame hret]
    show Pipe _ _ _ _ _ _ s.chan.receiverDropped _
    rw [hdrop]
    exact hpipe.receive
  | isClosed cx =>
    simp only [hr] at hs
    split at hs <;> cases hs <;>
      exact ⟨h.ledger, h.pipe.setReceiver .idle (by rw [hr]; rfl) (by simp) _⟩
  | drain =>
    have hdrop : s.chan.receiverDropped = true := hi.gone.trans (by rw [hr]; rfl)
    simp only [hr] at hs
    split at hs <;> cases hs
    · refine ⟨h.ledger, h.pipe.wrote, fun hd => ?_, h.pipe.delivered, (by simp)⟩
      rw [hdrop] at hd
      cases hd
    · exact ⟨h.ledger, h.pipe.setReceiver .wakeAll (by rw [hr]; rfl) (by simp) _⟩
  | drainRead idx =>
    have hdrop : s.chan.receiverDropped = true := hi.gone.trans (by rw [hr]; rfl)
    have hnot := hnot (i := idx) (by rw [hr]; rfl)
    simp only [hr] at hs
    split at hs <;> cases hs
    · -- a message that is drained is not delivered; the pipe is closed
      have hread := h.pipe.setReceiver .drain (by rw [hr]; rfl) (by simp) s.pushedAtPop
      exact ⟨h.ledger, hread.setSlot (hnot .ready (by simp)) (by simp [Receiver.unread])
        (fun q hq => hnot (.written q) (by simp) (by simp [State.items, hq])) none⟩
    · exact ⟨h.ledger, hr ▸ h.pipe⟩
  | wakeAll =>
    simp only [hr] at hs
    split at hs <;> cases hs
    · exact ⟨h.ledger, hr ▸ h.pipe⟩
    · exact ⟨h.ledger, h.pipe.setReceiver .dropped (by rw [hr]; rfl) (by simp) _⟩

/-- **Every step keeps the books.** -/
theorem Delivery.step (hi : SlotsInv N s ids live) (h : Delivery s) {a : Action T}
    (hs : Channel.step N s a = some s') : Delivery s' := by
  have hcall : ∀ {p : Nat} {val : T} {st : Sender T}, s.senders p = .idle →
      st.job = some (⟨s.calls.length, p, val⟩, false) → st.written = none →
      Delivery { s.setSender p st with calls := s.calls ++ [⟨s.calls.length, p, val⟩] } :=
    fun hp hst hw => ⟨h.ledger.call (by rw [hp]; rfl) rfl rfl hst, h.pipe.setSender_of_written hw⟩
  cases a with
  | trySend p val =>
    simp only [Channel.step] at hs
    cases hp : s.senders p with
    | idle =>
      rw [hp] at hs
      cases hs
      exact hcall hp rfl rfl
    | _ => rw [hp] at hs; cases hs
  | send p val =>
    simp only [Channel.step] at hs
    cases hp : s.senders p with
    | idle =>
      rw [hp] at hs
      cases hs
      exact hcall hp rfl rfl
    | _ => rw [hp] at hs; cases hs
  | poll p waker =>
    simp only [Channel.step] at hs
    cases hp : s.senders p with
    | sending m polled =>
      rw [hp] at hs
      cases hs
      exact h.poll hp
    | _ => rw [hp] at hs; cases hs
  | cancel p =>
    simp only [Channel.step] at hs
    cases hp : s.senders p with
    | sending m polled =>
      rw [hp] at hs
      cases hs
      exact h.setSender p _ (by rw [hp]; rfl) rfl
    | _ => rw [hp] at hs; cases hs
  | clone p q =>
    simp only [Channel.step] at hs
    cases hp : s.senders p with
    | idle =>
      cases hq : s.senders q with
      | absent =>
        rw [hp, hq] at hs
        cases hs
        have := h.setSender q .idle (by rw [hq]; rfl) rfl
        exact ⟨this.ledger, this.pipe⟩
      | _ => rw [hp, hq] at hs; cases hs
    | _ => rw [hp] at hs; cases hs
  | dropSender p =>
    simp only [Channel.step] at hs
    cases hp : s.senders p with
    | idle =>
      have hset : ∀ st : Sender T, st.job = none → st.written = none → Delivery (s.setSender p st) :=
        fun st hj hw => h.setSender p st (by rw [hp, hj]; rfl) hw
      rw [hp] at hs
      rcases hn : s.chan.numSenders with _ | _ | n <;> rw [hn] at hs <;> cases hs
      · exact ⟨h.ledger, h.pipe⟩
      · exact ⟨(hset .dropWake rfl rfl).ledger, (hset .dropWake rfl rfl).pipe⟩
      · exact ⟨(hset .dropped rfl rfl).ledger, (hset .dropped rfl rfl).pipe⟩
    | _ => rw [hp] at hs; cases hs
  | sender p => exact h.senderStep hi hs
  | tryRecv =>
    simp only [Channel.step] at hs
    cases hr : s.receiver with
    | idle =>
      rw [hr] at hs
      cases hs
      exact ⟨h.ledger, h.pipe.setReceiver (.pop none) (by rw [hr]; rfl) (by simp) _⟩
    | _ => rw [hr] at hs; cases hs
  | recv waker =>
    simp only [Channel.step] at hs
    cases hr : s.receiver with
    | idle =>
      have hreg : Delivery (s.register waker) := by
        unfold State.register
        split
        · exact h
        · exact ⟨h.ledger, h.pipe⟩
      have hidle : (s.register waker).receiver = .idle := by
        unfold State.register
        split <;> exact hr
      rw [hr] at hs
      cases hs
      exact ⟨hreg.ledger, hreg.pipe.setReceiver (.pop (some _)) (by rw [hidle]; rfl) (by simp) _⟩
    | _ => rw [hr] at hs; cases hs
  | dropReceiver =>
    simp only [Channel.step] at hs
    cases hr : s.receiver with
    | idle =>
      rw [hr] at hs
      cases hs
      exact ⟨h.ledger, h.pipe.wrote, (by simp), h.pipe.delivered, (by simp)⟩
    | _ => rw [hr] at hs; cases hs
  | receiver => exact h.receiverStep hi hs

theorem delivery_init : Delivery (machine T N).init where
  ledger := by
    have hjob : ∀ p, ((machine T N).init.senders p).job = none := by
      intro p
      by_cases hp : p = 0
      · exact congrArg Sender.job (if_pos hp)
      · exact congrArg Sender.job (if_neg hp)
    refine ⟨nofun, fun p m b hp => ?_, fun p m _ => nofun, fun p m hp => ?_, nofun,
      List.Pairwise.nil, nofun, nofun, nofun⟩ <;>
    · rw [hjob] at hp
      cases hp
  pipe := by
    refine ⟨fun p i m hp => ?_, fun _ => rfl, List.nil_prefix, nofun⟩
    have hp : (if p = 0 then Sender.idle else Sender.absent) = Sender.push i m := hp
    split at hp <;> cases hp

theorem delivery_reachable (hN : N ≤ 255) (h : (machine T N).Reachable s) : Delivery s :=
  h.invariant (P := Delivery) delivery_init fun _ _ _ hr hd hs =>
    let ⟨_, _, hi⟩ := slotsInv_reachable hN hr
    hd.step hi hs

/-! ## Delivery -/

/-- No call pushes twice. -/
theorem Ledger.nodup {calls : List (Msg T)} {pushed : List (Msg T)} {senders : Nat → Sender T}
    {results : List (Nat × Except (SendError (Msg T)) Unit)}
    (h : Ledger calls results pushed senders) : (pushed.map Msg.op).Nodup := by
  refine List.pairwise_map.mpr (h.ordered.imp_of_mem fun {m m'} hm hm' hlt hop => ?_)
  obtain rfl := h.eq_of_op (h.called m' hm') hm hop
  exact Nat.lt_irrefl _ (hlt rfl)

/--
**Delivery.** What was received is a prefix of what was pushed; a call that returned `Ok` pushed
its message, once, and it is received at most once; a sender's messages are received in the order of
its calls; a call that returned an error gives its own message back and pushed nothing.
-/
theorem channel_delivery (hN : N ≤ 255) (h : (machine T N).Reachable s) :
    s.received <+: s.pushed ∧
    (∀ m ∈ s.pushed, s.calls[m.op]? = some m) ∧
    (∀ k, (k, .ok ()) ∈ s.results →
      (s.pushed.map Msg.op).count k = 1 ∧ (s.received.map Msg.op).count k ≤ 1) ∧
    (∀ p, ((s.received.filter (·.sender == p)).map Msg.op).Pairwise (· < ·)) ∧
    ∀ k e, (k, .error e) ∈ s.results → s.calls[k]? = some e.val ∧ k ∉ s.pushed.map Msg.op := by
  obtain ⟨hl, hp⟩ := delivery_reachable hN h
  have hsub : s.received.Sublist s.pushed := hp.delivered.sublist
  refine ⟨hp.delivered, hl.called, fun k hk => ⟨?_, ?_⟩, fun p => ?_, fun k e hk => ?_⟩
  · obtain ⟨m, hm, rfl⟩ := hl.ok k hk
    exact List.count_eq_one_of_mem hl.nodup (List.mem_map_of_mem hm)
  · exact List.nodup_iff_count_le_one.mp (hl.nodup.sublist (hsub.map Msg.op)) k
  · refine List.pairwise_map.mpr ?_
    refine ((hl.ordered.sublist hsub).sublist List.filter_sublist).imp_of_mem
      fun {m m'} hm hm' hlt => hlt ?_
    have hmp : m.sender = p := by simpa using (List.mem_filter.mp hm).2
    have hmp' : m'.sender = p := by simpa using (List.mem_filter.mp hm').2
    rw [hmp, hmp']
  · refine ⟨(hl.error k e hk).1, fun hin => ?_⟩
    obtain ⟨m, hm, hop⟩ := List.mem_map.mp hin
    exact (hl.error k e hk).2 m hm hop

theorem channel_delivery_run :
    ∃ s, (machine Nat 1).exec (machine Nat 1).init handOver = some s ∧
      (s.received.map Msg.val, s.results.map Prod.fst) = ([5], [0]) ∧ s.received <+: s.pushed ∧
      ∀ k, (k, .ok ()) ∈ s.results → (s.pushed.map Msg.op).count k = 1 := by
  have hrun : ((machine Nat 1).exec (machine Nat 1).init handOver).map
      (fun s => (s.received.map Msg.val, s.results.map Prod.fst)) = some ([5], [0]) := by
    decide +kernel
  obtain ⟨s, hs, hobs⟩ := Option.map_eq_some_iff.mp hrun
  obtain ⟨hpre, -, hok, -, -⟩ :=
    channel_delivery (N := 1) (by decide) (Machine.reachable_iff_exec.mpr ⟨handOver, hs⟩)
  exact ⟨s, hs, hobs, hpre, fun k hk => (hok k hk).1⟩

/-! ## The end of the stream -/

/-- The step is the one by which `try_recv` or `recv` returns `NoSender`. -/
def State.endsStream (s : State T) : Action T → Bool
  | .receiver =>
    match s.receiver with
    | .isClosed _ => s.chan.numSenders == 0
    | _ => false
  | _ => false

/-- Every sender is dropped, and what was sent successfully was received. -/
structure Drained (s : State T) : Prop where
  senders : ∀ p, (s.senders p).isLive = false
  received : ∀ k, (k, .ok ()) ∈ s.results → k ∈ s.received.map Msg.op
  readyq : s.chan.readyq = []

/-- At the end of the stream everything is drained, unless a message was pushed late. -/
theorem drained_iff (hN : N ≤ 255) (h : (machine T N).Reachable s) {a : Action T}
    (ha : s.endsStream a = true) : s.pushed.length = s.pushedAtPop ↔ Drained s := by
  obtain ⟨ids, live, hi⟩ := slotsInv_reachable hN h
  obtain ⟨hl, hp⟩ := delivery_reachable hN h
  obtain ⟨cx, hr, hn⟩ : ∃ cx, s.receiver = .isClosed cx ∧ s.chan.numSenders = 0 := by
    unfold State.endsStream at ha
    split at ha
    · split at ha
      · exact ⟨_, ‹_›, by simpa using ha⟩
      · cases ha
    · cases ha
  have hdrop : s.chan.receiverDropped = false := hi.gone.trans (by rw [hr]; rfl)
  have hflow := hp.flow hdrop
  have hlen : s.pushed.length = s.pushedAtPop + s.chan.readyq.length := by
    have := congrArg List.length hflow
    rw [hr] at this
    simpa [Receiver.hand, hp.closing cx hr] using this
  constructor
  · intro heq
    have hready : s.chan.readyq = [] := List.length_eq_zero_iff.mp (by omega)
    have hall : s.received = s.pushed := hp.delivered.eq_of_length
      ((hp.closing cx hr).trans heq.symm)
    refine ⟨fun p => ?_, fun k hk => ?_, hready⟩
    · have hnil : live = [] := List.length_eq_zero_iff.mp (hi.live.count.symm.trans hn)
      have := hi.live.mem p
      rw [hnil] at this
      simpa using this
    · obtain ⟨m, hm, rfl⟩ := hl.ok k hk
      rw [hall]
      exact List.mem_map_of_mem hm
  · intro hdr
    rw [hlen, hdr.readyq]
    rfl

/--
**End of stream.** In a run, `NoSender` always means drained if and only if no message is ever
pushed between the `pop_front` that finds `readyq` empty and the look at `num_senders` that finds
no sender.
-/
theorem end_of_stream (hN : N ≤ 255) (as : List (Action T)) :
    (machine T N).Along (fun s a => s.endsStream a = true → Drained s) (machine T N).init as ↔
      (machine T N).Along (fun s a => s.endsStream a = true → s.pushed.length = s.pushedAtPop)
        (machine T N).init as :=
  Machine.along_congr (fun _ _ hr => forall_congr' fun ha => (drained_iff hN hr ha).symm) .init as

/-- A message is sent and received, the sender is dropped, and the receiver finds the end. -/
def sendThenEnd : List (Action Nat) :=
  [.trySend 0 7] ++ List.replicate 6 (.sender 0) ++ [.tryRecv, .receiver, .receiver, .receiver] ++
    [.dropSender 0, .sender 0, .tryRecv, .receiver]

theorem end_of_stream_run :
    (((machine Nat 1).exec (machine Nat 1).init sendThenEnd).map fun s =>
      (s.endsStream .receiver, s.received.map Msg.val)) = some (true, [7]) ∧
    (machine Nat 1).Along (fun s a => s.endsStream a = true → Drained s) (machine Nat 1).init
      (sendThenEnd ++ [.receiver]) :=
  ⟨by decide +kernel, (end_of_stream (by decide) _).mpr (by decide +kernel)⟩

/-- The receiver finds `readyq` empty; the sender sends and is dropped before the receiver looks. -/
def lateSend : List (Action Nat) :=
  [.tryRecv, .receiver, .trySend 0 7] ++ List.replicate 6 (.sender 0) ++
    [.dropSender 0, .sender 0]

/-- `NoSender`, and the message is still there. -/
theorem end_of_stream_late_send :
    ¬ (machine Nat 1).Along (fun s a => s.endsStream a = true → Drained s) (machine Nat 1).init
      (lateSend ++ [.receiver]) := by
  have hrun : ((machine Nat 1).exec (machine Nat 1).init lateSend).map
      (fun s => (s.endsStream .receiver, s.chan.readyq)) = some (true, [0]) := by decide +kernel
  obtain ⟨s, hs, hobs⟩ := Option.map_eq_some_iff.mp hrun
  obtain ⟨hends, hready⟩ := Prod.mk.inj hobs
  intro h
  have hdrained := ((Machine.along_append _ hs).mp h).2.1 hends
  rw [hdrained.readyq] at hready
  cases hready

end Rticx.AsyncRt.Channel
