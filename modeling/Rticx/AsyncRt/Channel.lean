import Rticx.AsyncRt.WaitQueue
import Rticx.Lib.Machine

/-!
# Channels

`rticx-async/src/channel.rs`: any number of senders, one receiver, and `N` slots between them. An
index travels from `freeq` through a sender to `readyq` and through the receiver back to `freeq`,
or straight to a sender that waits: into the cell of its send future.

The parties interleave at critical sections; what a party does outside of them touches memory
nobody else can reach, and is part of the step it follows. A send future is named after its
sender, which it borrows, so there is at most one for each.

The unchecked operations fault where the checked ones would refuse: pushing to a full queue,
popping from an empty one, writing a slot whose value was not read, reading one that holds none.
`heapless::Deque<u8, N>` is a list of at most `N` indices, front first.
-/

namespace Rticx.AsyncRt

open Lib

/-- A waker, known by what it wakes. -/
abbrev Waker := Nat

/-- A value with the number of the call that sends it and its sender. -/
structure Msg (T : Type) where
  op : Nat
  sender : Nat
  val : T
  deriving DecidableEq

variable {T : Type}

/-! ## The shared memory -/

/--
`Channel<T, N>`, and for each sender the local `free_slot_ptr` of its send future. A slot is
`none` from the read of its value to the next write.
-/
structure Channel (T : Type) where
  freeq : List Nat
  readyq : List Nat
  receiverWaker : Option Waker
  slots : Nat → Option T
  waitQueue : WaitQueue Nat (Waker × Nat)
  receiverDropped : Bool
  numSenders : Nat
  cells : Nat → Option Nat

namespace Channel

/-- `Channel::new` -/
def new : Channel T where
  freeq := []
  readyq := []
  receiverWaker := none
  slots := fun _ => none
  waitQueue := WaitQueue.new
  receiverDropped := false
  numSenders := 0
  cells := fun _ => none

/-- `split`: `for idx in 0..N as u8`, where `size_check` keeps `N` below 256. -/
def split (N : Nat) (c : Channel T) : Channel T :=
  { c with freeq := List.range (N % 256), numSenders := 1 }

/-- `return_free_slot`, with the waker it wakes; `none` if `freeq` is full. -/
def returnFreeSlot (N : Nat) (c : Channel T) (slot : Nat) : Option (Channel T × Option Waker) :=
  match c.waitQueue.pop with
  | (some (waker, freeqSlot), waitQueue) =>
    some ({ c with
      waitQueue := waitQueue
      cells := Function.update c.cells freeqSlot (some slot) }, some waker)
  | (none, waitQueue) =>
    if c.freeq.length < N then
      some ({ c with waitQueue := waitQueue, freeq := c.freeq ++ [slot] }, none)
    else none

/-! ## The senders -/

/-- What the dropper of a send future is run for. -/
inductive Outcome where
  /-- the future is dropped while it is pending -/
  | cancelled
  /-- the poll was `Ready(Err(()))` -/
  | closed
  /-- the poll was `Ready(Ok(idx))` -/
  | granted (idx : Nat)
  deriving DecidableEq

/-- Where a sender is. -/
inductive Sender (T : Type) where
  | absent
  | idle
  /-- `try_send`: `if !self.0.wait_queue.is_empty()` -/
  | tryWaitQueue (m : Msg T)
  /-- `try_send`: `if self.is_closed()` -/
  | tryClosed (m : Msg T)
  /-- `try_send`: `freeq.pop_front()` -/
  | tryPop (m : Msg T)
  /-- a send future that is pending, with the waker of its last poll if there was one -/
  | sending (m : Msg T) (polled : Option Waker)
  /-- the dropper: `link.remove_from_list(&self.0.wait_queue)` -/
  | unlink (m : Msg T) (out : Outcome)
  /-- the dropper: `return_free_slot` of what is in the cell -/
  | returnSlot (m : Msg T) (out : Outcome)
  /-- `send_footer`: the write of the slot -/
  | write (idx : Nat) (m : Msg T)
  /-- `send_footer`: `readyq.push_back_unchecked(idx)` -/
  | push (idx : Nat) (m : Msg T)
  /-- `send_footer`: `receiver_waker.wake()` -/
  | wake (m : Msg T)
  /-- `Sender::drop` of the last sender: `receiver_waker.wake()` -/
  | dropWake
  | dropped
  deriving DecidableEq

/-- The index the sender took, before it writes the slot. -/
def Sender.taken : Sender T → Option Nat
  | .unlink _ (.granted i) | .returnSlot _ (.granted i) | .write i _ => some i
  | _ => none

/-- The index of the slot the sender wrote, before it pushes it. -/
def Sender.written : Sender T → Option Nat
  | .push i _ => some i
  | _ => none

/-- The sender counts in `num_senders`. -/
def Sender.isLive : Sender T → Bool
  | .absent | .dropWake | .dropped => false
  | _ => true

/-- The two errors of `try_send`; `send` has the first. -/
inductive SendError (T : Type) where
  | noReceiver (val : T)
  | full (val : T)

/-- The value in the error. -/
def SendError.val : SendError T → T
  | .noReceiver v | .full v => v

/-! ## The receiver -/

/--
Where the receiver is. If `try_recv` was called by a poll of `recv`, `cx` is the waker of the poll
and the number of wakers woken before it was registered.
-/
inductive Receiver (T : Type) where
  | idle
  /-- `try_recv`: `readyq.pop_front()` -/
  | pop (cx : Option (Waker × Nat))
  /-- `try_recv`: `read_slot(rs)` -/
  | read (idx : Nat)
  /-- `try_recv`: `return_free_slot(rs)` -/
  | returnSlot (idx : Nat) (m : Msg T)
  /-- `try_recv`: `self.is_closed()` -/
  | isClosed (cx : Option (Waker × Nat))
  /-- `Receiver::drop`: `readyq.pop_back()` -/
  | drain
  /-- `Receiver::drop`: `drop(read_slot(slot))` -/
  | drainRead (idx : Nat)
  /-- `Receiver::drop`: `self.0.wait_queue.pop()` -/
  | wakeAll
  | dropped

/-- `ReceiveError` -/
inductive ReceiveError where
  | noSender
  | empty
  deriving DecidableEq

/-- The index the receiver popped, before it reads the slot. -/
def Receiver.unread : Receiver T → Option Nat
  | .read i | .drainRead i => some i
  | _ => none

/-- The index of the slot the receiver read, before it returns it. -/
def Receiver.emptied : Receiver T → Option Nat
  | .returnSlot i _ => some i
  | _ => none

/-! ## The system -/

/--
The channel, its parties, and the history: the calls made by senders, what they returned, the
messages in the order of their pushes, those returned by `try_recv` and `recv`, the errors of
`try_recv`, the messages dropped by `Receiver::drop`, how many were pushed at the last `pop_front`,
the wakers woken, and the `cx` of the last poll of `recv` if it returned `Pending`.
-/
structure State (T : Type) where
  chan : Channel (Msg T)
  senders : Nat → Sender T
  receiver : Receiver T
  fault : Bool
  calls : List (Msg T)
  results : List (Nat × Except (SendError (Msg T)) Unit)
  pushed : List (Msg T)
  received : List (Msg T)
  errors : List ReceiveError
  discarded : List (Msg T)
  pushedAtPop : Nat
  woken : List Waker
  parked : Option (Waker × Nat)

/-- What may happen next. -/
inductive Action (T : Type) where
  | trySend (p : Nat) (val : T)
  /-- `send` is called; nothing runs before the first poll -/
  | send (p : Nat) (val : T)
  | poll (p : Nat) (waker : Waker)
  /-- the send future is dropped -/
  | cancel (p : Nat)
  | clone (p q : Nat)
  | dropSender (p : Nat)
  /-- the next critical section of a sender -/
  | sender (p : Nat)
  | tryRecv
  /-- a poll of `recv`, which registers the waker first -/
  | recv (waker : Waker)
  | dropReceiver
  /-- the next critical section of the receiver -/
  | receiver

/-- Move one sender. -/
def State.setSender (s : State T) (p : Nat) (st : Sender T) : State T :=
  { s with senders := Function.update s.senders p st }

/-- The call of a sender returns. -/
def State.ret (s : State T) (p : Nat) (m : Msg T) (r : Except (SendError (Msg T)) Unit) :
    State T :=
  { s.setSender p .idle with results := s.results ++ [(m.op, r)] }

/-- An unchecked operation went wrong. -/
def State.faulted (s : State T) : State T := { s with fault := true }

/-- `receiver_waker.wake()` -/
def State.wakeReceiver (s : State T) : State T :=
  { s with
    chan := { s.chan with receiverWaker := none }
    woken := s.woken ++ s.chan.receiverWaker.toList }

/-- `receiver_waker.register(new_waker)` -/
def State.register (s : State T) (waker : Waker) : State T :=
  if s.chan.receiverWaker = some waker then s
  else
    { s with
      chan := { s.chan with receiverWaker := some waker }
      woken := s.woken ++ s.chan.receiverWaker.toList }

/-- A call of `try_send` or `send` gets the next number. -/
def State.call (s : State T) (p : Nat) (val : T) (st : Msg T → Sender T) : State T :=
  let m : Msg T := { op := s.calls.length, sender := p, val := val }
  { s.setSender p (st m) with calls := s.calls ++ [m] }

/-- The closure of `poll_fn` in `send`. -/
def poll (s : State T) (p : Nat) (waker : Waker) (m : Msg T) : State T :=
  if s.chan.receiverDropped then s.setSender p (.unlink m .closed)
  else
    match s.chan.waitQueue.links p with
    | some link =>
      if link.isPopped then
        let out := match s.chan.cells p with
          | some slot => .granted slot
          | none => .closed
        { s.setSender p (.unlink m out) with
          chan := { s.chan with
            cells := Function.update s.chan.cells p none
            waitQueue := s.chan.waitQueue.take p } }
      else s.setSender p (.sending m (some waker))
    | none =>
      if !s.chan.waitQueue.isEmpty || s.chan.freeq.isEmpty then
        { s.setSender p (.sending m (some waker)) with
          chan := { s.chan with
            waitQueue := (s.chan.waitQueue.insert p (waker, p)).push p } }
      else
        match s.chan.freeq.getLast? with
        | some slot =>
          { s.setSender p (.unlink m (.granted slot)) with
            chan := { s.chan with freeq := s.chan.freeq.dropLast } }
        | none => s.faulted

/-- The future is gone, and its sender goes on with what the poll answered. -/
def State.finish (s : State T) (p : Nat) (m : Msg T) (out : Outcome) : State T :=
  let s := { s with chan := { s.chan with waitQueue := s.chan.waitQueue.take p } }
  match out with
  | .cancelled => s.setSender p .idle
  | .closed => s.ret p m (.error (.noReceiver m))
  | .granted idx => s.setSender p (.write idx m)

/-- The next critical section of a sender. -/
def senderStep (N : Nat) (s : State T) (p : Nat) : Option (State T) :=
  match s.senders p with
  | .absent | .idle | .sending _ _ | .dropped => none
  | .tryWaitQueue m =>
    if !s.chan.waitQueue.isEmpty then some (s.ret p m (.error (.full m)))
    else some (s.setSender p (.tryClosed m))
  | .tryClosed m =>
    if s.chan.receiverDropped then some (s.ret p m (.error (.noReceiver m)))
    else some (s.setSender p (.tryPop m))
  | .tryPop m =>
    match s.chan.freeq with
    | idx :: freeq =>
      some { s.setSender p (.write idx m) with chan := { s.chan with freeq := freeq } }
    | [] => some (s.ret p m (.error (.full m)))
  | .unlink m out =>
    match s.chan.waitQueue.links p with
    | some _ =>
      some { s.setSender p (.returnSlot m out) with
        chan := { s.chan with waitQueue := s.chan.waitQueue.remove p } }
    | none => some (s.setSender p (.returnSlot m out))
  | .returnSlot m out =>
    match s.chan.cells p with
    | some slot =>
      match ({ s.chan with cells := Function.update s.chan.cells p none } :
          Channel (Msg T)).returnFreeSlot N slot with
      | some (chan, woken) =>
        some (State.finish { s with chan := chan, woken := s.woken ++ woken.toList } p m out)
      | none => some s.faulted
    | none => some (s.finish p m out)
  | .write idx m =>
    match s.chan.slots idx with
    | none =>
      some { s.setSender p (.push idx m) with
        chan := { s.chan with slots := Function.update s.chan.slots idx (some m) } }
    | some _ => some s.faulted
  | .push idx m =>
    if s.chan.readyq.length < N then
      some { s.setSender p (.wake m) with
        chan := { s.chan with readyq := s.chan.readyq ++ [idx] }
        pushed := s.pushed ++ [m] }
    else some s.faulted
  | .wake m => some (s.wakeReceiver.ret p m (.ok ()))
  | .dropWake => some (s.wakeReceiver.setSender p .dropped)

/-- The next critical section of the receiver. -/
def receiverStep (N : Nat) (s : State T) : Option (State T) :=
  match s.receiver with
  | .idle | .dropped => none
  | .pop cx =>
    match s.chan.readyq with
    | idx :: readyq =>
      some { s with
        receiver := .read idx
        chan := { s.chan with readyq := readyq }
        pushedAtPop := s.pushed.length }
    | [] => some { s with receiver := .isClosed cx, pushedAtPop := s.pushed.length }
  | .read idx =>
    match s.chan.slots idx with
    | some m =>
      some { s with
        receiver := .returnSlot idx m
        chan := { s.chan with slots := Function.update s.chan.slots idx none } }
    | none => some s.faulted
  | .returnSlot idx m =>
    match s.chan.returnFreeSlot N idx with
    | some (chan, woken) =>
      some { s with
        receiver := .idle
        chan := chan
        woken := s.woken ++ woken.toList
        received := s.received ++ [m] }
    | none => some s.faulted
  | .isClosed cx =>
    if s.chan.numSenders = 0 then
      some { s with receiver := .idle, errors := s.errors ++ [.noSender] }
    else
      -- `recv` turns this error into `Pending`
      some { s with
        receiver := .idle
        errors := s.errors ++ [.empty]
        parked := cx.or s.parked }
  | .drain =>
    match s.chan.readyq.getLast? with
    | some idx =>
      some { s with
        receiver := .drainRead idx
        chan := { s.chan with readyq := s.chan.readyq.dropLast } }
    | none => some { s with receiver := .wakeAll }
  | .drainRead idx =>
    match s.chan.slots idx with
    | some m =>
      some { s with
        receiver := .drain
        chan := { s.chan with slots := Function.update s.chan.slots idx none }
        discarded := s.discarded ++ [m] }
    | none => some s.faulted
  | .wakeAll =>
    match s.chan.waitQueue.pop with
    | (some (waker, _), waitQueue) =>
      some { s with
        chan := { s.chan with waitQueue := waitQueue }, woken := s.woken ++ [waker] }
    | (none, waitQueue) =>
      some { s with receiver := .dropped, chan := { s.chan with waitQueue := waitQueue } }

/-- The channel with its parties. -/
def step (N : Nat) (s : State T) : Action T → Option (State T)
  | .trySend p val =>
    match s.senders p with
    | .idle => some (s.call p val .tryWaitQueue)
    | _ => none
  | .send p val =>
    match s.senders p with
    | .idle => some (s.call p val (.sending · none))
    | _ => none
  | .poll p waker =>
    match s.senders p with
    | .sending m _ => some (poll s p waker m)
    | _ => none
  | .cancel p =>
    match s.senders p with
    | .sending m _ => some (s.setSender p (.unlink m .cancelled))
    | _ => none
  | .clone p q =>
    match s.senders p, s.senders q with
    | .idle, .absent =>
      some { s.setSender q .idle with
        chan := { s.chan with numSenders := s.chan.numSenders + 1 } }
    | _, _ => none
  | .dropSender p =>
    match s.senders p with
    | .idle =>
      match s.chan.numSenders with
      | 0 => some s.faulted
      | 1 => some { s.setSender p .dropWake with chan := { s.chan with numSenders := 0 } }
      | n + 2 => some { s.setSender p .dropped with chan := { s.chan with numSenders := n + 1 } }
    | _ => none
  | .sender p => senderStep N s p
  | .tryRecv =>
    match s.receiver with
    | .idle => some { s with receiver := .pop none }
    | _ => none
  | .recv waker =>
    match s.receiver with
    | .idle =>
      let s := s.register waker
      some { s with receiver := .pop (some (waker, s.woken.length)), parked := none }
    | _ => none
  | .dropReceiver =>
    match s.receiver with
    | .idle =>
      some { s with
        receiver := .drain
        chan := { s.chan with receiverDropped := true } }
    | _ => none
  | .receiver => receiverStep N s

/-- The endpoints of a freshly split channel; the first sender has the name 0. -/
def machine (T : Type) (N : Nat) : Machine (State T) (Action T) where
  init :=
    { chan := Channel.new.split N
      senders := fun p => if p = 0 then .idle else .absent
      receiver := .idle
      fault := false
      calls := [], results := [], pushed := [], received := [], errors := [], discarded := []
      pushedAtPop := 0, woken := [], parked := none }
  step := step N

end Channel

end Rticx.AsyncRt
