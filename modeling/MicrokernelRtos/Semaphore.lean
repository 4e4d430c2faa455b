/-
semaphore.c: a count with an upper limit and a first-come wait list.

A post raises the count and makes the first waiter ready; the waiter tests the
count again in its own loop.
-/

import MicrokernelRtos.Blocking

namespace MicrokernelRtos

def semaphoreWakeTimeout (kernel : Kernel) (t : Addr) : Option Kernel :=
  let unlinked :=
    match kernel.blockObject t with
    | none => some kernel
    | some sem => tcbUnlink kernel (.semaphore sem) t
  unlinked.bind fun unlinked => makeReady (timeoutStatus unlinked t) t

def semaphoreDetachWaiter (kernel : Kernel) (sem : Option Nat) (t : Addr) : Option Kernel :=
  match sem with
  | none => some kernel
  | some sem =>
      (tcbUnlink kernel (.semaphore sem) t).map fun unlinked =>
        { unlinked with mutexWaitNext := Function.update unlinked.mutexWaitNext t none }

def semaphoreInit (kernel : Kernel) (sem : Option Nat) (initial maxCount : Nat) :
    Status × Kernel :=
  match sem with
  | none => (.errParam, kernel)
  | some sem =>
      if maxCount = 0 ∨ initial > maxCount then (.errParam, kernel)
      else
        (.ok,
          { kernel with
            semaphore := Function.update kernel.semaphore sem
              { count := initial, maxCount := maxCount }
            waitHead := Function.update kernel.waitHead (.semaphore sem) none
            waitTail := Function.update kernel.waitTail (.semaphore sem) none })

def setCount (kernel : Kernel) (sem count : Nat) : Kernel :=
  { kernel with
    semaphore := Function.update kernel.semaphore sem
      { kernel.semaphore sem with count := count } }

/-- One pass of the loop of `semaphore_wait`, up to the first `cpsie i`. -/
def semaphoreWaitRegion (kernel : Kernel) (sem : Nat) (self : Addr) :
    Option (Outcome × Kernel) :=
  if (kernel.semaphore sem).count > 0 then
    some (.returns .ok [], setCount kernel sem ((kernel.semaphore sem).count - 1))
  else (tcbEnqueueTail kernel (.semaphore sem) self).map fun queued => (.blocks, queued)

def semaphoreWait (kernel : Kernel) (sem : Option Nat) (timeoutTicks : Nat) :
    Option (Outcome × Kernel) :=
  match sem with
  | none => some (.returns .errParam [], kernel)
  | some sem =>
      match kernel.currentTcb with
      | none => some (.returns .errState [], kernel)
      | some self =>
          blockingPass (semaphoreWaitRegion kernel sem self) timeoutTicks .semaphore (some sem)

/-- The region of `semaphore_post`, with the reschedule request behind it. -/
def semaphorePostRegion (kernel : Kernel) (sem : Nat) : Option (Status × Kernel) :=
  if (kernel.semaphore sem).count ≥ (kernel.semaphore sem).maxCount then
    some (.errFull, kernel)
  else
    let raised := setCount kernel sem ((kernel.semaphore sem).count + 1)
    let popped := tcbPopHead raised (.semaphore sem)
    match popped.1 with
    | none => some (.ok, schedulerMarkReschedule popped.2)
    | some wake =>
        (makeReady popped.2 wake).map fun woken => (.ok, schedulerMarkReschedule woken)

def semaphorePost (kernel : Kernel) (sem : Option Nat) : Option (Status × Kernel) :=
  match sem with
  | none => some (.errParam, kernel)
  | some sem => semaphorePostRegion kernel sem

end MicrokernelRtos
