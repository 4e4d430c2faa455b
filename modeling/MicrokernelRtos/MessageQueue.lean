/-
msgqueue.c: fixed-size messages in a ring buffer of bytes, with one wait list
for senders and one for receivers.

The buffer is a function of the byte offset.  Offsets and indices are computed
in 32-bit arithmetic, as the C types make the code do.
-/

import MicrokernelRtos.Blocking

namespace MicrokernelRtos

def copyIn (buffer : Nat → UInt8) (offset : Nat) (source : Nat → UInt8) (size : Nat) :
    Nat → UInt8 :=
  fun position =>
    if offset ≤ position ∧ position < offset + size then source (position - offset)
    else buffer position

def copyOut (buffer : Nat → UInt8) (offset size : Nat) : List UInt8 :=
  (List.range size).map fun position => buffer (offset + position)

def slotOffset (q : MsgQueue) (index : Nat) : Nat := (index * q.msgSize) % uint32Size

/-- The queue after a message has been copied in behind the last one. -/
def pushMessage (q : MsgQueue) (msg : Nat → UInt8) : MsgQueue :=
  { q with
    buffer := copyIn q.buffer (slotOffset q q.tail) msg q.msgSize
    tail := ((q.tail + 1) % uint32Size) % q.depth
    count := q.count + 1 }

/-- The queue after its first message has been copied out. -/
def popMessage (q : MsgQueue) : MsgQueue :=
  { q with
    head := ((q.head + 1) % uint32Size) % q.depth
    count := q.count - 1 }

def wakeHead (kernel : Kernel) (list : WaitId) : Option Kernel :=
  let popped := tcbPopHead kernel list
  match popped.1 with
  | none => some popped.2
  | some t => (makeReady popped.2 t).map schedulerMarkReschedule

def msgqueueWakeTimeout (kernel : Kernel) (t : Addr) : Option Kernel :=
  let unlinked :=
    match kernel.blockObject t, kernel.blockReason t with
    | some q, .msgSend => tcbUnlink kernel (.msgSend q) t
    | some q, .msgRecv => tcbUnlink kernel (.msgRecv q) t
    | _, _ => some kernel
  unlinked.bind fun unlinked => makeReady (timeoutStatus unlinked t) t

def msgqueueDetachWaiter (kernel : Kernel) (q : Option Nat) (t : Addr) : Option Kernel :=
  match q with
  | none => some kernel
  | some q =>
      let unlinked :=
        match kernel.blockReason t with
        | .msgSend => tcbUnlink kernel (.msgSend q) t
        | .msgRecv => tcbUnlink kernel (.msgRecv q) t
        | _ => some kernel
      unlinked.map fun unlinked =>
        { unlinked with mutexWaitNext := Function.update unlinked.mutexWaitNext t none }

def msgQueueInit (kernel : Kernel) (q : Option Nat) (storage : Option (Nat → UInt8))
    (msgSize depth : Nat) : Status × Kernel :=
  match q, storage with
  | some q, some storage =>
      if msgSize = 0 ∨ depth = 0 then (.errParam, kernel)
      else
        (.ok,
          { kernel with
            msgQueue := Function.update kernel.msgQueue q
              { buffer := storage, msgSize := msgSize, depth := depth,
                head := 0, tail := 0, count := 0 }
            waitHead := Function.update (Function.update kernel.waitHead (.msgSend q) none)
              (.msgRecv q) none
            waitTail := Function.update (Function.update kernel.waitTail (.msgSend q) none)
              (.msgRecv q) none })
  | _, _ => (.errParam, kernel)

def setQueue (kernel : Kernel) (q : Nat) (value : MsgQueue) : Kernel :=
  { kernel with msgQueue := Function.update kernel.msgQueue q value }

/-- One pass of the loop of `msg_queue_send`, up to the first `cpsie i`. -/
def msgQueueSendRegion (kernel : Kernel) (q : Nat) (msg : Nat → UInt8) (self : Addr) :
    Option (Outcome × Kernel) :=
  if (kernel.msgQueue q).count < (kernel.msgQueue q).depth then
    (wakeHead (setQueue kernel q (pushMessage (kernel.msgQueue q) msg)) (.msgRecv q)).map
      fun sent => (.returns .ok [], sent)
  else (tcbEnqueueTail kernel (.msgSend q) self).map fun queued => (.blocks, queued)

def msgQueueSend (kernel : Kernel) (q : Option Nat) (msg : Option (Nat → UInt8))
    (timeoutTicks : Nat) : Option (Outcome × Kernel) :=
  match q, msg with
  | some q, some msg =>
      match kernel.currentTcb with
      | none => some (.returns .errState [], kernel)
      | some self =>
          blockingPass (msgQueueSendRegion kernel q msg self) timeoutTicks .msgSend (some q)
  | _, _ => some (.returns .errParam [], kernel)

/-- One pass of the loop of `msg_queue_recv`, up to the first `cpsie i`. -/
def msgQueueRecvRegion (kernel : Kernel) (q : Nat) (self : Addr) : Option (Outcome × Kernel) :=
  if (kernel.msgQueue q).count > 0 then
    (wakeHead (setQueue kernel q (popMessage (kernel.msgQueue q))) (.msgSend q)).map
      fun received =>
        (.returns .ok (copyOut (kernel.msgQueue q).buffer
          (slotOffset (kernel.msgQueue q) (kernel.msgQueue q).head)
          (kernel.msgQueue q).msgSize), received)
  else (tcbEnqueueTail kernel (.msgRecv q) self).map fun queued => (.blocks, queued)

/-- `msg_queue_recv`, one pass of its loop.  `out` stands for the caller's
buffer, which is only tested for NULL. -/
def msgQueueRecv (kernel : Kernel) (q : Option Nat) (out : Option Unit) (timeoutTicks : Nat) :
    Option (Outcome × Kernel) :=
  match q, out with
  | some q, some _ =>
      match kernel.currentTcb with
      | none => some (.returns .errState [], kernel)
      | some self =>
          blockingPass (msgQueueRecvRegion kernel q self) timeoutTicks .msgRecv (some q)
  | _, _ => some (.returns .errParam [], kernel)

end MicrokernelRtos
