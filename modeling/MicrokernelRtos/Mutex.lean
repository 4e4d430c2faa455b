/-
mutex.c: ownership, the wait list served by priority, and priority inheritance.

A boost is stored in the owner's priority field alone.  The functions follow the
file; a region between `cpsid i` and `cpsie i` is one function, and the calls of
the API put the checks before it and, for a lock, the blocking after it.
-/

import MicrokernelRtos.Blocking

namespace MicrokernelRtos

open Linked

/-! ### The code -/

def priorityFields (kernel : Kernel) (tcb : Addr) (value : Nat) : Kernel :=
  { kernel with
    priority := Function.update kernel.priority tcb value
    prioBucket := Function.update kernel.prioBucket tcb (prioBucket value) }

/-- The lines that `_apply_pi` and `_restore_owner_priority` share: the priority
and the bucket are written, and the scheduler is asked to move the task. -/
def changePriority (kernel : Kernel) (tcb : Addr) (value : Nat) : Option Kernel :=
  schedulerRebucketTask (priorityFields kernel tcb value) (some tcb) (kernel.prioBucket tcb)
    (prioBucket value)

/-- `_apply_pi`, with `RTOS_MUTEX_PRIORITY_INHERITANCE` as shipped. -/
def applyPi (kernel : Kernel) (m : Nat) : Option Kernel :=
  match (kernel.mutex m).owner, kernel.waitHead (.mutex m) with
  | some owner, some _ =>
      match minWaitPriorityValue kernel (.mutex m) with
      | none => none
      | some hp =>
          if hp < kernel.priority owner then changePriority kernel owner hp else some kernel
  | _, _ => some kernel

def restoreOwnerPriority (kernel : Kernel) (tcb : Addr) : Option Kernel :=
  changePriority kernel tcb (kernel.basePriority tcb)

def mutexWakeTimeout (kernel : Kernel) (t : Addr) : Option Kernel :=
  let unlinked :=
    match kernel.blockObject t with
    | none => some kernel
    | some m => tcbUnlink kernel (.mutex m) t
  unlinked.bind fun unlinked =>
    makeReady
      { timeoutStatus unlinked t with
        blockedOnMutex := Function.update unlinked.blockedOnMutex t none } t

def mutexDetachWaiter (kernel : Kernel) (m : Option Nat) (t : Addr) : Option Kernel :=
  match m with
  | none => some kernel
  | some m =>
      (tcbUnlink kernel (.mutex m) t).map fun unlinked =>
        { unlinked with
          blockedOnMutex := Function.update unlinked.blockedOnMutex t none
          mutexWaitNext := Function.update unlinked.mutexWaitNext t none }

def mutexInit (kernel : Kernel) (m : Option Nat) : Status × Kernel :=
  match m with
  | none => (.errParam, kernel)
  | some m =>
      (.ok,
        { kernel with
          mutex := Function.update kernel.mutex m { locked := false, owner := none }
          waitHead := Function.update kernel.waitHead (.mutex m) none
          waitTail := Function.update kernel.waitTail (.mutex m) none })

/-- The writes of `mutex_lock` that take a free mutex. -/
def takeMutex (kernel : Kernel) (m : Nat) (self : Addr) : Kernel :=
  { kernel with
    mutex := Function.update kernel.mutex m { locked := true, owner := some self }
    blockedOnMutex := Function.update kernel.blockedOnMutex self none }

def noteMutex (kernel : Kernel) (m : Nat) (self : Addr) : Kernel :=
  { kernel with blockedOnMutex := Function.update kernel.blockedOnMutex self (some m) }

/-- One pass of the loop of `mutex_lock`, up to the first `cpsie i`. -/
def mutexLockRegion (kernel : Kernel) (m : Nat) (self : Addr) : Option (Outcome × Kernel) :=
  if (kernel.mutex m).locked = true ∧ (kernel.mutex m).owner = some self then
    some (.returns .ok [], kernel)
  else if (kernel.mutex m).locked = false then
    some (.returns .ok [], takeMutex kernel m self)
  else
    (tcbEnqueueTail (noteMutex kernel m self) (.mutex m) self).bind fun queued =>
      (applyPi queued m).map fun boosted => (.blocks, boosted)

def mutexLock (kernel : Kernel) (m : Option Nat) (timeoutTicks : Nat) :
    Option (Outcome × Kernel) :=
  match m with
  | none => some (.returns .errParam [], kernel)
  | some m =>
      match kernel.currentTcb with
      | none => some (.returns .errState [], kernel)
      | some self =>
          blockingPass (mutexLockRegion kernel m self) timeoutTicks .mutex (some m)

def release (kernel : Kernel) (m : Nat) : Kernel :=
  { kernel with mutex := Function.update kernel.mutex m { locked := false, owner := none } }

def handOver (kernel : Kernel) (m : Nat) (next : Addr) : Kernel :=
  { kernel with
    mutex := Function.update kernel.mutex m { locked := true, owner := some next }
    blockedOnMutex := Function.update kernel.blockedOnMutex next none }

/-- The region of `mutex_unlock`, with the reschedule request behind it. -/
def mutexUnlockRegion (kernel : Kernel) (m : Nat) (self : Addr) : Option Kernel :=
  (restoreOwnerPriority kernel self).bind fun restored =>
    (waitPopHighest restored (.mutex m)).bind fun popped =>
      match popped.1 with
      | none => some (schedulerMarkReschedule (release popped.2 m))
      | some next => (makeReady (handOver popped.2 m next) next).map schedulerMarkReschedule

/-- The check of `mutex_unlock` before `cpsid i`. -/
def ownsMutex (kernel : Kernel) (m : Nat) (self : Addr) : Bool :=
  (kernel.mutex m).locked && decide ((kernel.mutex m).owner = some self)

def mutexUnlock (kernel : Kernel) (m : Option Nat) : Option (Status × Kernel) :=
  match m with
  | none => some (.errParam, kernel)
  | some m =>
      match kernel.currentTcb with
      | none => some (.errOwner, kernel)
      | some self =>
          if ownsMutex kernel m self then
            (mutexUnlockRegion kernel m self).map fun unlocked => (.ok, unlocked)
          else some (.errOwner, kernel)

/-! ### A change of priority -/

variable {kernel : Kernel} {rings : Bucket → List Addr} {tcb : Addr} {value : Nat}

/-- The rings behind a change of priority: a READY task whose bucket changes goes
to the end of its new ring. -/
def movedRings (kernel : Kernel) (rings : Bucket → List Addr) (tcb : Addr) (value : Nat) :
    Bucket → List Addr :=
  if kernel.state tcb = .ready ∧ kernel.prioBucket tcb ≠ prioBucket value then
    Function.update
      (Function.update rings (kernel.prioBucket tcb) ((rings (kernel.prioBucket tcb)).erase tcb))
      (prioBucket value) (rings (prioBucket value) ++ [tcb])
  else rings

theorem mem_movedRings_of_ne {item : Addr} (different : item ≠ tcb) (bucket : Bucket) :
    item ∈ movedRings kernel rings tcb value bucket ↔ item ∈ rings bucket := by
  unfold movedRings
  split
  · by_cases atNew : bucket = prioBucket value
    · subst bucket
      rw [Function.update_self]
      simp [different]
    · rw [Function.update_of_ne atNew]
      by_cases atOld : bucket = kernel.prioBucket tcb
      · subst bucket
        rw [Function.update_self, List.mem_erase_of_ne different]
      · rw [Function.update_of_ne atOld]
  · exact Iff.rfl

theorem mem_movedRings_self (lists : kernel.RingsAre rings)
    (placed : kernel.state tcb = .ready →
      ∀ bucket, bucket ≠ kernel.prioBucket tcb → tcb ∉ rings bucket) (bucket : Bucket) :
    tcb ∈ movedRings kernel rings tcb value bucket ↔
      if kernel.state tcb = .ready ∧ kernel.prioBucket tcb ≠ prioBucket value then
        bucket = prioBucket value
      else tcb ∈ rings bucket := by
  unfold movedRings
  split
  · rename_i moves
    by_cases atNew : bucket = prioBucket value
    · subst bucket
      simp
    · rw [Function.update_of_ne atNew]
      refine ⟨fun member => absurd member ?_, fun isNew => absurd isNew atNew⟩
      by_cases atOld : bucket = kernel.prioBucket tcb
      · subst bucket
        rw [Function.update_self]
        exact (lists.family.ring _).distinct.not_mem_erase
      · rw [Function.update_of_ne atOld]
        exact placed moves.1 bucket atOld
  · exact Iff.rfl

theorem changePriority_onlyRings {result : Kernel}
    (returned : changePriority kernel tcb value = some result) :
    OnlyRings (priorityFields kernel tcb value) result :=
  schedulerRebucketTask_onlyRings (Function.update_self _ _ _) returned

/-- A READY task must be in no ring but the one of its bucket. -/
theorem changePriority_spec (lists : kernel.RingsAre rings)
    (enough : ∀ bucket, (rings bucket).length ≤ kernel.walkLimit)
    (placed : kernel.state tcb = .ready →
      ∀ bucket, bucket ≠ kernel.prioBucket tcb → tcb ∉ rings bucket) :
    ∃ result, changePriority kernel tcb value = some result ∧
      result.RingsAre (movedRings kernel rings tcb value) := by
  unfold changePriority movedRings
  by_cases same : kernel.prioBucket tcb = prioBucket value
  · rw [if_neg fun both => both.2 same]
    exact ⟨priorityFields kernel tcb value, by simp [schedulerRebucketTask, same],
      lists.family, lists.fresh⟩
  · by_cases ready : kernel.state tcb = .ready
    · rw [if_pos ⟨ready, same⟩]
      obtain ⟨result, returned, _, moved⟩ :=
        @schedulerRebucketTask_spec (priorityFields kernel tcb value) rings tcb
          (kernel.prioBucket tcb) (prioBucket value) ⟨lists.family, lists.fresh⟩ enough
          (Function.update_self _ _ _) ready (placed ready) same
      exact ⟨result, returned, moved⟩
    · rw [if_neg fun both => ready both.1]
      exact ⟨{ priorityFields kernel tcb value with
          prioBucket := Function.update (priorityFields kernel tcb value).prioBucket tcb
            (prioBucket value) },
        by simp [schedulerRebucketTask, same, priorityFields, ready], lists.family, lists.fresh⟩

end MicrokernelRtos
