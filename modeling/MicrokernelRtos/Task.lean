/-
task.c: the registry, creation and deletion of tasks, delays, and the part of
the tick that wakes blocked tasks; with the tick handler of system.c.

The heap is left outside.  What its allocator returned for the task control
block and for the stack is an argument of the functions that allocate.
-/

import MicrokernelRtos.Mutex
import MicrokernelRtos.Semaphore
import MicrokernelRtos.MessageQueue

namespace MicrokernelRtos

def minStackSize : Nat := 256

def registryAdd (kernel : Kernel) (tcb : Addr) : Kernel :=
  if kernel.taskRegistry.length < kernel.config.maxTasks + 1 then
    { kernel with taskRegistry := kernel.taskRegistry ++ [tcb] }
  else kernel

/-- `_registry_remove`: the entries behind the first match move up by one. -/
def registryRemove (kernel : Kernel) (tcb : Addr) : Kernel :=
  { kernel with taskRegistry := kernel.taskRegistry.erase tcb }

def detachBlockedTask (kernel : Kernel) (tcb : Addr) : Option Kernel :=
  let detached :=
    match kernel.blockReason tcb with
    | .mutex => mutexDetachWaiter kernel (kernel.blockObject tcb) tcb
    | .semaphore => semaphoreDetachWaiter kernel (kernel.blockObject tcb) tcb
    | .msgSend => msgqueueDetachWaiter kernel (kernel.blockObject tcb) tcb
    | .msgRecv => msgqueueDetachWaiter kernel (kernel.blockObject tcb) tcb
    | .delay => some kernel
    | .none => some kernel
  detached.map fun detached =>
    { detached with
      blockReason := Function.update detached.blockReason tcb .none
      blockObject := Function.update detached.blockObject tcb none
      blockedOnMutex := Function.update detached.blockedOnMutex tcb none }

/-- `memset(tcb, 0, sizeof(TCB_t))`; zero is READY, `BLOCK_NONE` and `RTOS_OK`. -/
def clearTcb (kernel : Kernel) (tcb : Addr) : Kernel :=
  { kernel with
    prioBucket := Function.update kernel.prioBucket tcb firstBucket
    priority := Function.update kernel.priority tcb 0
    state := Function.update kernel.state tcb .ready
    wakeTime := Function.update kernel.wakeTime tcb 0
    basePriority := Function.update kernel.basePriority tcb 0
    blockedOnMutex := Function.update kernel.blockedOnMutex tcb none
    timeSliceCounter := Function.update kernel.timeSliceCounter tcb 0
    blockReason := Function.update kernel.blockReason tcb .none
    blockObject := Function.update kernel.blockObject tcb none
    blockWakeStatus := Function.update kernel.blockWakeStatus tcb .ok
    nextReady := Function.update kernel.nextReady tcb none
    mutexWaitNext := Function.update kernel.mutexWaitNext tcb none }

/-- `_task_build_common`, less the stack frame. -/
def taskBuildCommon (kernel : Kernel) (tcb : Addr) (taskFunc : Option Nat) : Status × Kernel :=
  match taskFunc with
  | none => (.errParam, kernel)
  | some _ =>
      (.ok,
        { kernel with
          nextReady := Function.update kernel.nextReady tcb none
          basePriority := Function.update kernel.basePriority tcb (kernel.priority tcb)
          blockedOnMutex := Function.update kernel.blockedOnMutex tcb none
          mutexWaitNext := Function.update kernel.mutexWaitNext tcb none
          timeSliceCounter := Function.update kernel.timeSliceCounter tcb 0
          blockReason := Function.update kernel.blockReason tcb .none
          blockObject := Function.update kernel.blockObject tcb none
          blockWakeStatus := Function.update kernel.blockWakeStatus tcb .ok
          wakeTime := Function.update kernel.wakeTime tcb uint32Max })

/-- The end of `task_init` and `task_create`: the new block is filled in, added
to its ring and registered. -/
def installTask (kernel : Kernel) (tcb : Addr) (taskFunc : Option Nat) (priority : Nat)
    (bucket : Bucket) : Option (Status × Kernel) :=
  let cleared := clearTcb kernel tcb
  let built := taskBuildCommon
    { cleared with
      priority := Function.update cleared.priority tcb priority
      prioBucket := Function.update cleared.prioBucket tcb bucket } tcb taskFunc
  if built.1 ≠ .ok then some (.errState, built.2)
  else
    (schedulerAddTask
      { built.2 with state := Function.update built.2.state tcb .ready } (some tcb)).map
      fun added =>
        if added.1 ≠ .ok then (.errState, added.2) else (.ok, registryAdd added.2 tcb)

def schedulerInit (kernel : Kernel) : Kernel :=
  { kernel with readyHead := fun _ => none, currentTcb := none, idleTcb := none }

/-- `task_init`; `idleBlock` is what the heap returned for the idle task, and
the address of `_idle_task_fn` stands for a function that is not NULL. -/
def taskInit (kernel : Kernel) (idleBlock : Option Addr) : Option (Status × Kernel) :=
  let empty := { schedulerInit kernel with taskRegistry := [] }
  match idleBlock with
  | none => some (.errNoMem, empty)
  | some idle => installTask { empty with idleTcb := some idle } idle (some 0) 255 lastBucket

/-- `task_create`; `tcbBlock` and `stackBlock` are what the heap returned. -/
def taskCreate (kernel : Kernel) (taskFunc : Option Nat) (priority stackSize : Nat)
    (tcbBlock stackBlock : Option Addr) : Option (Option Addr × Kernel) :=
  if taskFunc = none ∨ stackSize < minStackSize then some (none, kernel)
  else if kernel.taskRegistry.length ≥ kernel.config.maxTasks then some (none, kernel)
  else
    match tcbBlock, stackBlock with
    | some tcb, some _ =>
        (installTask kernel tcb taskFunc priority (prioBucket priority)).map fun installed =>
          (if installed.1 ≠ .ok then none else some tcb, installed.2)
    | _, _ => some (none, kernel)

/-- `task_delete`, less the two calls of `heap_free`. -/
def taskDelete (kernel : Kernel) (tcb : Option Addr) : Option (Status × Kernel) :=
  match tcb with
  | none => some (.errParam, kernel)
  | some tcb =>
      if some tcb = kernel.idleTcb then some (.errState, kernel)
      else if some tcb = kernel.currentTcb then some (.errState, kernel)
      else
        let detached :=
          if kernel.state tcb = .blocked then detachBlockedTask kernel tcb else some kernel
        detached.bind fun detached =>
          (schedulerRemoveTask detached (some tcb)).map fun removed =>
            (.ok, registryRemove
              { removed with state := Function.update removed.state tcb .terminated } tcb)

def taskYield (kernel : Kernel) : Kernel := schedulerMarkReschedule kernel

def taskDelay (kernel : Kernel) (ticks : Nat) : Option (Outcome × Kernel) :=
  if ticks = 0 then some (.returns .errParam [], kernel)
  else rtosBlockCurrent kernel ticks .delay none

/-- The test of `rtos_wake_delayed` for one registered task. -/
def isDue (kernel : Kernel) (now : Nat) (t : Addr) : Bool :=
  decide (some t ≠ kernel.idleTcb) && decide (kernel.state t = .blocked) &&
    decide (kernel.wakeTime t ≠ uint32Max) && decide (kernel.wakeTime t ≤ now)

/-- The body of the loop of `rtos_wake_delayed`. -/
def wakeIfDue (kernel : Kernel) (now : Nat) (t : Addr) : Option Kernel :=
  if isDue kernel now t then
    match kernel.blockReason t with
    | .delay => makeReady kernel t
    | .mutex => mutexWakeTimeout kernel t
    | .semaphore => semaphoreWakeTimeout kernel t
    | .msgSend => msgqueueWakeTimeout kernel t
    | .msgRecv => msgqueueWakeTimeout kernel t
    | .none => some kernel
  else some kernel

def wakeLoop (now : Nat) : List Addr → Kernel → Option Kernel
  | [], kernel => some kernel
  | t :: rest, kernel => (wakeIfDue kernel now t).bind (wakeLoop now rest)

def rtosWakeDelayed (kernel : Kernel) : Option Kernel :=
  wakeLoop kernel.tickCount kernel.taskRegistry kernel

def rtosTickIncrement (kernel : Kernel) : Kernel :=
  { kernel with tickCount := (kernel.tickCount + 1) % uint32Size }

/-- `SysTick_Handler` while no software timer is armed; a callback would be code of
the application.  The stack check writes none of this state. -/
def sysTickHandler (kernel : Kernel) : Option Kernel :=
  (rtosWakeDelayed (rtosTickIncrement kernel)).bind fun woken =>
    (schedulerTimeSliceTick woken).map schedulerMarkReschedule

end MicrokernelRtos
