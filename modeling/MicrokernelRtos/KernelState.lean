/-
The data of the kernel: the enumerations and the task control block of
rtos_types.h, the limits of rtos_config.h, and the static variables of
scheduler.c and task.c together with the mutexes, semaphores and message
queues the application declares.

A task control block is a record in C and its address is what every kernel
structure stores.  Here each of its fields is one function of the address, so
that a write to one field leaves every other field alone by definition.  The
link fields are kept apart from the rest because the facts about lists are
facts about them only.
-/

import MicrokernelRtos.Library.LinkedPath
import Mathlib.Data.Fin.Basic

namespace MicrokernelRtos

/-- Address of a task control block inside the heap pool. -/
abbrev Addr := Nat

/-- Index of a ready ring, `RTOS_NUM_PRIORITIES` of them. -/
abbrev Bucket := Fin 8

inductive BlockReason where
  | none
  | delay
  | mutex
  | semaphore
  | msgSend
  | msgRecv
  deriving DecidableEq, Repr

inductive TaskState where
  | ready
  | running
  | blocked
  | suspended
  | terminated
  deriving DecidableEq, Repr

inductive Status where
  | ok
  | errParam
  | errNoMem
  | errState
  | errTimeout
  | errFull
  | errEmpty
  | errOwner
  | errBusy
  deriving DecidableEq, Repr

/-- The compile-time limits the kernel code compares against.  The defaults are
the shipped values. -/
structure Config where
  maxTasks : Nat := 32
  /-- `RTOS_HEAP_POOL_SIZE`: every task control block lies below it. -/
  poolSize : Nat := 32768
  timeSliceTicks : Nat := 1
  deriving Repr

def uint32Max : Nat := 4294967295

def uint32Size : Nat := 4294967296

def priorityMax : Nat := 255

def firstBucket : Bucket := 0

def lastBucket : Bucket := 7

/-- `_prio_bucket`, and the same lines inlined in mutex.c. -/
def prioBucket (priority : Nat) : Bucket :=
  if inside : priority >>> 5 < 8 then ⟨priority >>> 5, inside⟩ else lastBucket

structure Mutex where
  locked : Bool
  owner : Option Addr

structure Semaphore where
  count : Nat
  maxCount : Nat

structure MsgQueue where
  buffer : Nat → UInt8
  msgSize : Nat
  depth : Nat
  head : Nat
  tail : Nat
  count : Nat

/-- The wait lists of the kernel objects.  A message queue has two of them. -/
inductive WaitId where
  | mutex (object : Nat)
  | semaphore (object : Nat)
  | msgSend (object : Nat)
  | msgRecv (object : Nat)
  deriving DecidableEq, Repr

/-- Every field that is not a link. -/
structure Core where
  config : Config
  -- TCB_t, one function for each field
  prioBucket : Addr → Bucket
  priority : Addr → Nat
  state : Addr → TaskState
  wakeTime : Addr → Nat
  basePriority : Addr → Nat
  blockedOnMutex : Addr → Option Nat
  timeSliceCounter : Addr → Nat
  blockReason : Addr → BlockReason
  blockObject : Addr → Option Nat
  blockWakeStatus : Addr → Status
  currentTcb : Option Addr
  idleTcb : Option Addr
  pendSv : Bool
  taskRegistry : List Addr
  tickCount : Nat
  mutex : Nat → Mutex
  semaphore : Nat → Semaphore
  msgQueue : Nat → MsgQueue

/-- The links: `next_ready` and `ready_head` form the ready rings, and
`mutex_wait_next` with the head and tail fields of the objects the wait lists. -/
structure Links where
  nextReady : Addr → Option Addr
  readyHead : Bucket → Option Addr
  mutexWaitNext : Addr → Option Addr
  waitHead : WaitId → Option Addr
  waitTail : WaitId → Option Addr

/-- What a call of `scheduler_add_task` saw.  The code keeps no such record. -/
structure AddCall where
  task : Addr
  nextReady : Addr → Option Addr
  readyHead : Bucket → Option Addr

/-- The kernel, with the record of its calls of `scheduler_add_task` so far. -/
structure Kernel extends Core, Links where
  addCalls : List AddCall

/-- A walk over task control blocks that takes more steps than there are
addresses has visited one of them twice and never ends. -/
def Kernel.walkLimit (kernel : Kernel) : Nat := kernel.config.poolSize

/-- The task was in no ready ring when it was handed to `scheduler_add_task`. -/
def AddCall.Fresh (call : AddCall) : Prop :=
  ∀ bucket, ¬ Linked.Reaches call.nextReady (call.readyHead bucket) call.task

/-- The wait list that a block reason and a block object name together. -/
def waitId (reason : BlockReason) (object : Option Nat) : Option WaitId :=
  match reason, object with
  | .mutex, some target => some (.mutex target)
  | .semaphore, some target => some (.semaphore target)
  | .msgSend, some target => some (.msgSend target)
  | .msgRecv, some target => some (.msgRecv target)
  | _, _ => none

end MicrokernelRtos
