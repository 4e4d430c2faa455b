/-
The calls a task can make, as one type.

Every call has the same course: a check before interrupts are disabled, a region
that ends with a result or with the caller on a wait list, and in the second
case `rtos_block_current` with the reason and the object of the call.  A delay
has no region of its own and blocks at once.
-/

import MicrokernelRtos.Task

namespace MicrokernelRtos

/-- The calls with arguments that are not NULL. -/
inductive Call where
  | lock (m timeoutTicks : Nat)
  | unlock (m : Nat)
  | wait (sem timeoutTicks : Nat)
  | post (sem : Nat)
  | send (q : Nat) (msg : Nat → UInt8) (timeoutTicks : Nat)
  | recv (q timeoutTicks : Nat)
  | delay (ticks : Nat)

def Call.reason : Call → BlockReason
  | .lock _ _ => .mutex
  | .wait _ _ => .semaphore
  | .send _ _ _ => .msgSend
  | .recv _ _ => .msgRecv
  | .delay _ => .delay
  | .unlock _ => .none
  | .post _ => .none

def Call.object : Call → Option Nat
  | .lock m _ => some m
  | .wait sem _ => some sem
  | .send q _ _ => some q
  | .recv q _ => some q
  | .delay _ => none
  | .unlock _ => none
  | .post _ => none

def Call.timeoutTicks : Call → Nat
  | .lock _ timeoutTicks => timeoutTicks
  | .wait _ timeoutTicks => timeoutTicks
  | .send _ _ timeoutTicks => timeoutTicks
  | .recv _ timeoutTicks => timeoutTicks
  | .delay ticks => ticks
  | .unlock _ => 0
  | .post _ => 0

def Call.list (call : Call) : Option WaitId := waitId call.reason call.object

/-- The checks before `cpsid i`: the status of a call that is refused. -/
def callRefused (kernel : Kernel) (self : Addr) : Call → Option Status
  | .unlock m => if ownsMutex kernel m self then none else some .errOwner
  | .delay ticks => if ticks = 0 then some .errParam else none
  | _ => none

/-- One pass of the region of a call. -/
def callRegion (kernel : Kernel) (self : Addr) : Call → Option (Outcome × Kernel)
  | .lock m _ => mutexLockRegion kernel m self
  | .unlock m => (mutexUnlockRegion kernel m self).map fun unlocked => (.returns .ok [], unlocked)
  | .wait sem _ => semaphoreWaitRegion kernel sem self
  | .post sem => (semaphorePostRegion kernel sem).map fun posted =>
      (.returns posted.1 [], posted.2)
  | .send q msg _ => msgQueueSendRegion kernel q msg self
  | .recv q _ => msgQueueRecvRegion kernel q self
  | .delay _ => some (.blocks, kernel)

/-- A call without a context switch inside, up to its block point. -/
def callPass (kernel : Kernel) (self : Addr) (call : Call) : Option (Outcome × Kernel) :=
  match callRefused kernel self call with
  | some status => some (.returns status [], kernel)
  | none => blockingPass (callRegion kernel self call) call.timeoutTicks call.reason call.object

def apiCall (kernel : Kernel) : Call → Option (Outcome × Kernel)
  | .lock m timeoutTicks => mutexLock kernel (some m) timeoutTicks
  | .unlock m => (mutexUnlock kernel (some m)).map fun unlocked =>
      (.returns unlocked.1 [], unlocked.2)
  | .wait sem timeoutTicks => semaphoreWait kernel (some sem) timeoutTicks
  | .post sem => (semaphorePost kernel (some sem)).map fun posted =>
      (.returns posted.1 [], posted.2)
  | .send q msg timeoutTicks => msgQueueSend kernel (some q) (some msg) timeoutTicks
  | .recv q timeoutTicks => msgQueueRecv kernel (some q) (some ()) timeoutTicks
  | .delay ticks => taskDelay kernel ticks

theorem apiCall_eq {kernel : Kernel} {self : Addr} (isCurrent : kernel.currentTcb = some self)
    (call : Call) : apiCall kernel call = callPass kernel self call := by
  cases call with
  | lock m timeoutTicks => simp only [apiCall, mutexLock, isCurrent, callPass, callRefused]; rfl
  | unlock m =>
      simp only [apiCall, mutexUnlock, isCurrent, callPass, callRefused]
      cases ownsMutex kernel m self with
      | false => rfl
      | true =>
          simp only [if_true, callRegion, blockingPass, Option.map_map]
          cases mutexUnlockRegion kernel m self <;> rfl
  | wait sem timeoutTicks =>
      simp only [apiCall, semaphoreWait, isCurrent, callPass, callRefused]
      rfl
  | post sem =>
      simp only [apiCall, semaphorePost, callPass, callRefused, callRegion, blockingPass]
      cases semaphorePostRegion kernel sem <;> rfl
  | send q msg timeoutTicks =>
      simp only [apiCall, msgQueueSend, isCurrent, callPass, callRefused]
      rfl
  | recv q timeoutTicks =>
      simp only [apiCall, msgQueueRecv, isCurrent, callPass, callRefused]
      rfl
  | delay ticks =>
      simp only [apiCall, taskDelay, callPass, callRefused]
      split <;> rfl

end MicrokernelRtos
