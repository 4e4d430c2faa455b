/-
What the operations of the kernel write into the mutexes.

An owner is written by the lock that finds the mutex free and by the unlock of the
owner, and by nothing else.  Nothing is asked of the lists here.
-/

import MicrokernelRtos.SystemCalls
import MicrokernelRtos.Coherence.Frames

namespace MicrokernelRtos

variable {kernel result : Kernel} {self t : Addr} {call : Call} {m : Nat}

/-- The task is the owner of no mutex. -/
def OwnsNoMutex (kernel : Kernel) (t : Addr) : Prop := ∀ m, (kernel.mutex m).owner ≠ some t

/-! ### The head of a wait list -/

def HeadsShrink (before after : Kernel) : Prop :=
  ∀ list, after.waitHead list ≠ none → before.waitHead list ≠ none

theorem HeadsShrink.refl (kernel : Kernel) : HeadsShrink kernel kernel := fun _ => id

theorem HeadsShrink.trans {first second third : Kernel} (left : HeadsShrink first second)
    (right : HeadsShrink second third) : HeadsShrink first third :=
  fun list someone => left list (right list someone)

theorem OnlyRings.headsShrink {before after : Kernel} (frame : OnlyRings before after) :
    HeadsShrink before after := by
  intro list someone
  rw [frame.waitHead] at someone
  exact someone

theorem headsShrink_update {list : WaitId} {first : Addr} {head : Option Addr}
    (headAt : kernel.waitHead list = some first)
    (heads : result.waitHead = Function.update kernel.waitHead list head) :
    HeadsShrink kernel result := by
  intro other someone
  by_cases same : other = list
  · subst other
    rw [headAt]
    exact Option.some_ne_none first
  · rw [heads, Function.update_of_ne same] at someone
    exact someone

theorem tcbUnlink_headsShrink {list : WaitId} (returned : tcbUnlink kernel list t = some result) :
    HeadsShrink kernel result := by
  unfold tcbUnlink at returned
  split at returned
  · cases returned
    exact HeadsShrink.refl kernel
  · rename_i first headAt
    split at returned
    · cases returned
    · cases returned
      exact HeadsShrink.refl kernel
    · cases returned
      exact headsShrink_update headAt rfl
    · cases returned
      exact fun _ => id

theorem tcbPopHead_headsShrink (kernel : Kernel) (list : WaitId) :
    HeadsShrink kernel (tcbPopHead kernel list).2 := by
  unfold tcbPopHead
  split
  · exact HeadsShrink.refl kernel
  · rename_i first headAt
    exact headsShrink_update headAt rfl

theorem waitPopHighest_headsShrink {list : WaitId} {popped : Option Addr}
    (returned : waitPopHighest kernel list = some (popped, result)) :
    HeadsShrink kernel result := by
  unfold waitPopHighest at returned
  split at returned
  · cases returned
    exact HeadsShrink.refl kernel
  · rename_i first headAt
    split at returned
    · cases returned
    · cases returned
      exact headsShrink_update headAt rfl
    · cases returned
      exact fun _ => id

theorem waitPopHighest_none {list : WaitId}
    (returned : waitPopHighest kernel list = some (none, result)) :
    result.waitHead list = none := by
  unfold waitPopHighest at returned
  split at returned
  · rename_i empty
    cases returned
    exact empty
  · split at returned <;> cases returned

theorem wakeHead_headsShrink {list : WaitId} (returned : wakeHead kernel list = some result) :
    HeadsShrink kernel result := by
  rcases wakeHead_cases returned with ⟨_, rfl⟩ | ⟨first, woken, _, wake, rfl⟩
  · exact HeadsShrink.refl _
  · exact (tcbPopHead_headsShrink kernel list).trans (makeReady_onlyRings wake).headsShrink

theorem wakeIfDue_headsShrink {now : Nat} (returned : wakeIfDue kernel now t = some result) :
    HeadsShrink kernel result := by
  by_cases expires : Expires kernel now t
  · rw [wakeIfDue_eq expires.1 expires.2] at returned
    obtain ⟨unlinked, removal, ready⟩ := Option.bind_eq_some_iff.mp returned
    have shrinks : HeadsShrink kernel unlinked := by
      unfold unlinkBlocked at removal
      split at removal
      · exact tcbUnlink_headsShrink removal
      · cases removal
        exact HeadsShrink.refl kernel
    refine shrinks.trans fun list someone => ?_
    have links := timeoutFields_links (kernel.blockReason t) unlinked t
    have kept := (makeReady_onlyRings ready).headsShrink list someone
    have same : (timeoutFields (kernel.blockReason t) unlinked t).waitHead =
        unlinked.waitHead := by rw [links]
    rw [← same]
    exact kept
  · rw [wakeIfDue_of_not expires] at returned
    cases returned
    exact HeadsShrink.refl kernel

theorem wakeLoop_headsShrink {now : Nat} {items : List Addr}
    (returned : wakeLoop now items kernel = some result) : HeadsShrink kernel result := by
  induction items generalizing kernel with
  | nil =>
      cases returned
      exact HeadsShrink.refl _
  | cons first rest ih =>
      obtain ⟨middle, wake, later⟩ := Option.bind_eq_some_iff.mp returned
      exact (wakeIfDue_headsShrink wake).trans (ih later)

/-! ### Steps that leave the mutexes alone -/

/-- No mutex is written, and no list gets its first waiter. -/
structure LeavesMutexes (before after : Kernel) : Prop where
  mutex : after.mutex = before.mutex
  heads : ∀ m, after.waitHead (.mutex m) ≠ none → before.waitHead (.mutex m) ≠ none

theorem wakeHead_leavesMutexes {list : WaitId} (returned : wakeHead kernel list = some result) :
    LeavesMutexes kernel result := by
  refine ⟨?_, fun m => wakeHead_headsShrink returned (.mutex m)⟩
  rcases wakeHead_core returned with core | ⟨first, _, core⟩
  · rw [core]
  · rw [core]
    rfl

theorem enqueue_leavesMutexes {list : WaitId} (other : ∀ m, list ≠ .mutex m)
    (returned : tcbEnqueueTail kernel list self = some result) : LeavesMutexes kernel result := by
  refine ⟨by rw [(tcbEnqueueTail_onlyWaits returned).core], fun m => ?_⟩
  rw [tcbEnqueueTail_heads returned (other m).symm]
  exact id

theorem callRegion_leavesMutexes {outcome : Outcome}
    (returned : callRegion kernel self call = some (outcome, result))
    (notLock : ∀ m timeoutTicks, call ≠ .lock m timeoutTicks) (notUnlock : ∀ m, call ≠ .unlock m) :
    LeavesMutexes kernel result := by
  cases call with
  | lock m timeoutTicks => exact absurd rfl (notLock m timeoutTicks)
  | unlock m => exact absurd rfl (notUnlock m)
  | wait sem timeoutTicks =>
      simp only [callRegion, semaphoreWaitRegion] at returned
      split at returned
      · cases returned
        exact ⟨rfl, fun _ => id⟩
      · obtain ⟨queued, enqueued, equal⟩ := Option.map_eq_some_iff.mp returned
        cases equal
        exact enqueue_leavesMutexes (fun _ same => by cases same) enqueued
  | post sem =>
      simp only [callRegion, semaphorePostRegion_eq] at returned
      split at returned
      · cases returned
        exact ⟨rfl, fun _ => id⟩
      · rw [Option.map_map] at returned
        obtain ⟨woken, wake, equal⟩ := Option.map_eq_some_iff.mp returned
        cases equal
        have leaves := wakeHead_leavesMutexes wake
        exact ⟨leaves.mutex, leaves.heads⟩
  | send q msg timeoutTicks =>
      simp only [callRegion, msgQueueSendRegion] at returned
      split at returned
      · obtain ⟨woken, wake, equal⟩ := Option.map_eq_some_iff.mp returned
        cases equal
        have leaves := wakeHead_leavesMutexes wake
        exact ⟨leaves.mutex, leaves.heads⟩
      · obtain ⟨queued, enqueued, equal⟩ := Option.map_eq_some_iff.mp returned
        cases equal
        exact enqueue_leavesMutexes (fun _ same => by cases same) enqueued
  | recv q timeoutTicks =>
      simp only [callRegion, msgQueueRecvRegion] at returned
      split at returned
      · obtain ⟨woken, wake, equal⟩ := Option.map_eq_some_iff.mp returned
        cases equal
        have leaves := wakeHead_leavesMutexes wake
        exact ⟨leaves.mutex, leaves.heads⟩
      · obtain ⟨queued, enqueued, equal⟩ := Option.map_eq_some_iff.mp returned
        cases equal
        exact enqueue_leavesMutexes (fun _ same => by cases same) enqueued
  | delay ticks =>
      cases returned
      exact ⟨rfl, fun _ => id⟩

/-! ### The two calls that change an owner -/

theorem lockRegion_mutexes {outcome : Outcome} {timeoutTicks : Nat}
    (returned : callRegion kernel self (.lock m timeoutTicks) = some (outcome, result)) :
    (outcome = .returns .ok [] ∧ (kernel.mutex m).locked = true ∧
      (kernel.mutex m).owner = some self ∧ LeavesMutexes kernel result) ∨
    (outcome = .returns .ok [] ∧ (kernel.mutex m).locked = false ∧
      result.mutex = Function.update kernel.mutex m { locked := true, owner := some self } ∧
      result.waitHead = kernel.waitHead) ∨
    (outcome = .blocks ∧ (kernel.mutex m).locked = true ∧ (kernel.mutex m).owner ≠ some self ∧
      result.mutex = kernel.mutex ∧
      ∀ other, other ≠ m → result.waitHead (.mutex other) = kernel.waitHead (.mutex other)) := by
  rcases mutexLockRegion_cases returned with ⟨isOk, locked, mine, rfl⟩ | ⟨isOk, free, rfl⟩ |
    ⟨blocks, locked, foreign, queued, enqueued, boost⟩
  · exact Or.inl ⟨isOk, locked, mine, rfl, fun _ => id⟩
  · exact Or.inr (Or.inl ⟨isOk, free, rfl, rfl⟩)
  · refine Or.inr (Or.inr ⟨blocks, locked, foreign, ?_, ?_⟩)
    · rw [lockJoin_core enqueued boost]
      rfl
    · intro other different
      have listsApart : WaitId.mutex other ≠ .mutex m := fun same => by
        cases same
        exact different rfl
      rw [applyPi_heads boost, tcbEnqueueTail_heads enqueued listsApart]
      rfl

theorem unlockRegion_mutexes {outcome : Outcome}
    (returned : callRegion kernel self (.unlock m) = some (outcome, result)) :
    outcome = .returns .ok [] ∧
      (∀ other, other ≠ m → result.waitHead (.mutex other) ≠ none →
        kernel.waitHead (.mutex other) ≠ none) ∧
      ((result.mutex = Function.update kernel.mutex m { locked := false, owner := none } ∧
          result.waitHead (.mutex m) = none) ∨
        ∃ heir, result.mutex =
          Function.update kernel.mutex m { locked := true, owner := some heir }) := by
  obtain ⟨unlocked, region, equal⟩ := Option.map_eq_some_iff.mp returned
  cases equal
  obtain ⟨restored, next, popped, restore, pop, ending⟩ := mutexUnlockRegion_cases region
  have restoredFrame := changePriority_onlyRings restore
  have poppedMutex : popped.mutex = kernel.mutex := by
    rw [(waitPopHighest_onlyWaits pop).core, restoredFrame.core]
    rfl
  have shrinks : HeadsShrink kernel popped := by
    refine HeadsShrink.trans (fun list someone => ?_) (waitPopHighest_headsShrink pop)
    rw [restoredFrame.waitHead] at someone
    exact someone
  rcases ending with ⟨rfl, rfl⟩ | ⟨heir, woken, rfl, wake, rfl⟩
  · have empty := waitPopHighest_none pop
    refine ⟨rfl, fun other _ => shrinks (.mutex other), Or.inl ⟨?_, empty⟩⟩
    simp only [schedulerMarkReschedule, release, poppedMutex]
  · have frame := makeReady_onlyRings wake
    refine ⟨rfl, fun other _ someone => shrinks (.mutex other) ?_, Or.inr ⟨heir, ?_⟩⟩
    · have same : woken.waitHead (.mutex other) ≠ none := someone
      rw [frame.waitHead] at same
      exact same
    · change woken.mutex = _
      rw [frame.core]
      simp only [readyFields, handOver, poppedMutex]

end MicrokernelRtos
