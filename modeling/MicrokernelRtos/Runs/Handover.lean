/-
One call of `mutex_unlock`.

The owner gives up what it has inherited, the most urgent waiter leaves the list,
the longest waiting one of several, and owns the mutex from then on.  The lists
are well formed and the waiters are in no ring; the caller is no waiter and, if it
is READY, in no ring but its own.
-/

import MicrokernelRtos.Runs.Atomic

namespace MicrokernelRtos

open Linked Transition

variable {kernel result : Kernel} {rings : Bucket → List Addr} {waits : WaitId → List Addr}
variable {m : Nat} {self : Addr}

/-- The task calls `mutex_unlock` on a mutex it owns. -/
structure Unlocking (kernel : Kernel) (rings : Bucket → List Addr) (waits : WaitId → List Addr)
    (m : Nat) (caller : Addr) : Prop where
  formed : kernel.ListsFormed rings waits
  locked : (kernel.mutex m).locked = true
  owner : (kernel.mutex m).owner = some caller
  inPool : caller < kernel.config.poolSize
  notWaiting : caller ∉ waits (.mutex m)
  unready : ∀ t ∈ waits (.mutex m), ∀ bucket, t ∉ rings bucket
  placed : kernel.state caller = .ready →
    ∀ bucket, bucket ≠ kernel.prioBucket caller → caller ∉ rings bucket

/-- The mutex has passed to the task. -/
structure HandedOver (kernel result : Kernel) (waits : WaitId → List Addr) (m : Nat)
    (heir : Addr) : Prop where
  chosen : firstHighest kernel.priority (waits (.mutex m)) = some heir
  mutex : result.mutex m = { locked := true, owner := some heir }
  ready : result.state heir = .ready
  reason : result.blockReason heir = .none
  object : result.blockObject heir = none
  waits : result.WaitsAre (Function.update waits (.mutex m) ((waits (.mutex m)).erase heir))

theorem Unlocking.restore (unlocking : Unlocking kernel rings waits m self) :
    ∃ restored, restoreOwnerPriority kernel self = some restored ∧
      OnlyRings (priorityFields kernel self (kernel.basePriority self)) restored ∧
      restored.RingsAre (movedRings kernel rings self (kernel.basePriority self)) ∧
      restored.WaitsAre waits ∧
      ∀ t ∈ waits (.mutex m), restored.priority t = kernel.priority t := by
  have formed := unlocking.formed
  obtain ⟨restored, returned, moved⟩ :=
    @changePriority_spec kernel rings self (kernel.basePriority self) formed.ringLists
      (formed.ringLists.length_le formed.ringed) unlocking.placed
  have frame := changePriority_onlyRings returned
  refine ⟨restored, returned, frame, moved, frame.waitsAre formed.waitLists, ?_⟩
  intro t member
  rw [frame.core]
  refine Function.update_of_ne ?_ _ _
  rintro rfl
  exact unlocking.notWaiting member

theorem Unlocking.movedRings_lt (unlocking : Unlocking kernel rings waits m self) (value : Nat) :
    ∀ bucket, ∀ t ∈ movedRings kernel rings self value bucket, t < kernel.config.poolSize := by
  intro bucket t member
  by_cases same : t = self
  · rw [same]
    exact unlocking.inPool
  · exact unlocking.formed.ringed bucket t ((mem_movedRings_of_ne same bucket).mp member)

theorem mutexUnlock_of_owner (isCurrent : kernel.currentTcb = some self)
    (unlocking : Unlocking kernel rings waits m self)
    (returned : mutexUnlockRegion kernel m self = some result) :
    mutexUnlock kernel (some m) = some (.ok, result) := by
  have owns : ownsMutex kernel m self = true := by
    simp [ownsMutex, unlocking.locked, unlocking.owner]
  simp [mutexUnlock, isCurrent, owns, returned]

theorem Unlocking.region_empty (unlocking : Unlocking kernel rings waits m self)
    (empty : waits (.mutex m) = []) :
    ∃ result, mutexUnlockRegion kernel m self = some result ∧
      result.mutex m = { locked := false, owner := none } ∧ result.WaitsAre waits := by
  obtain ⟨restored, returned, _, _, lists, _⟩ := unlocking.restore
  refine ⟨schedulerMarkReschedule (release restored m), ?_, Function.update_self m _ _, lists⟩
  rw [mutexUnlockRegion, returned, Option.bind_some, waitPopHighest_empty lists empty]
  rfl

theorem Unlocking.region_handsOver (unlocking : Unlocking kernel rings waits m self)
    (nonempty : waits (.mutex m) ≠ []) :
    ∃ result heir, mutexUnlockRegion kernel m self = some result ∧
      HandedOver kernel result waits m heir := by
  obtain ⟨restored, returned, frame, moved, lists, priorities⟩ := unlocking.restore
  have config : restored.config = kernel.config := by
    rw [frame.core]
    rfl
  have limit : restored.walkLimit = kernel.walkLimit := congrArg Config.poolSize config
  obtain ⟨before, heir, after, popped, split, above, atLeast, pop, left⟩ :=
    waitPopHighest_spec lists
      (by rw [limit]; exact unlocking.formed.waitLists.length_le unlocking.formed.waiting _)
      nonempty
  have member : heir ∈ waits (.mutex m) := by simp [split]
  have popFrame := waitPopHighest_onlyWaits pop
  have absent : ∀ bucket,
      heir ∉ movedRings kernel rings self (kernel.basePriority self) bucket := by
    intro bucket inside
    have different : heir ≠ self := by
      rintro rfl
      exact unlocking.notWaiting member
    exact unlocking.unready heir member bucket ((mem_movedRings_of_ne different bucket).mp inside)
  have poppedLimit : (handOver popped m heir).walkLimit = kernel.walkLimit := by
    have same : popped.config = restored.config := by rw [popFrame.core]
    exact congrArg Config.poolSize (same.trans config)
  obtain ⟨woken, wake, wokenFrame, _⟩ := @makeReady_spec (handOver popped m heir) _ heir
    (show (handOver popped m heir).RingsAre _ from
      ⟨(popFrame.ringsAre moved).family, (popFrame.ringsAre moved).fresh⟩)
    (by
      rw [poppedLimit, ← limit]
      refine moved.length_le ?_ _
      rw [config]
      exact unlocking.movedRings_lt _)
    absent
  have erased : before ++ after = (waits (.mutex m)).erase heir := by
    have distinct := (unlocking.formed.waitLists.queue (.mutex m)).distinct
    rw [split] at distinct ⊢
    exact (erase_split distinct).symm
  refine ⟨schedulerMarkReschedule woken, heir, ?_, ?_, ?_, ?_, ?_, ?_, ?_⟩
  · rw [mutexUnlockRegion, returned, Option.bind_some, pop, Option.bind_some]
    dsimp only
    rw [wake, Option.map_some]
  · rw [← firstHighest_congr priorities, split]
    exact firstHighest_of_split above atLeast
  · change woken.mutex m = _
    rw [wokenFrame.core]
    exact Function.update_self m _ _
  · change woken.state heir = _
    rw [wokenFrame.core]
    exact Function.update_self heir _ _
  · change woken.blockReason heir = _
    rw [wokenFrame.core]
    exact Function.update_self heir _ _
  · change woken.blockObject heir = _
    rw [wokenFrame.core]
    exact Function.update_self heir _ _
  · rw [← erased]
    exact wokenFrame.waitsAre left

/-- The owner of a mutex hands it to the longest waiting of its most urgent
waiters, or leaves it free; a task that does not own it changes nothing. -/
theorem mutexUnlock_hands_over (kernel : Kernel) (m : Nat) (self : Addr)
    (isCurrent : kernel.currentTcb = some self) :
    (∀ rings waits, Unlocking kernel rings waits m self →
      ∃ result, mutexUnlock kernel (some m) = some (.ok, result) ∧
        (waits (.mutex m) ≠ [] → ∃ heir, HandedOver kernel result waits m heir) ∧
        (waits (.mutex m) = [] → result.mutex m = { locked := false, owner := none } ∧
          result.WaitsAre waits)) ∧
      ((kernel.mutex m).owner ≠ some self →
        mutexUnlock kernel (some m) = some (.errOwner, kernel)) := by
  constructor
  · intro rings waits unlocking
    by_cases empty : waits (.mutex m) = []
    · obtain ⟨result, returned, free, lists⟩ := unlocking.region_empty empty
      exact ⟨result, mutexUnlock_of_owner isCurrent unlocking returned,
        fun nonempty => absurd empty nonempty, fun _ => ⟨free, lists⟩⟩
    · obtain ⟨result, heir, returned, handed⟩ := unlocking.region_handsOver empty
      exact ⟨result, mutexUnlock_of_owner isCurrent unlocking returned,
        fun _ => ⟨heir, handed⟩, fun isEmpty => absurd isEmpty empty⟩
  · intro notOwner
    simp [mutexUnlock, isCurrent, ownsMutex, notOwner]

/-- The states of the runs are of this kind, whoever owns the mutex. -/
theorem Coherent.unlocking (coherent : Coherent kernel noWindow)
    (isCurrent : kernel.currentTcb = some self) (awake : kernel.state self ≠ .blocked)
    (locked : (kernel.mutex m).locked = true) (owner : (kernel.mutex m).owner = some self) :
    ∃ rings waits, Unlocking kernel rings waits m self := by
  obtain ⟨⟨rings, ringed⟩, waits, waiting⟩ := coherent
  have registry := waiting.registry
  refine ⟨rings, waits, ⟨ringed.lists, waiting.lists, ?_, ?_⟩, locked, owner,
    registry.bounded self (registry.current self isCurrent), ?_, ?_, ?_⟩
  · exact fun bucket t member =>
      registry.bounded t ((ringed.shape.member bucket t).mp member).1
  · exact fun list t member => registry.bounded t ((waiting.shape.member list t).mp member).1
  · exact waiting.shape.notMem awake rfl _
  · exact fun t member => ringed.notMem (waiting.mem_blocked member)
  · exact fun _ bucket different member =>
      different ((ringed.shape.member bucket self).mp member).2.1.symm

theorem mutexUnlock_between_equals :
    ∃ kernel rings waits result, Unlocking kernel rings waits 0 1 ∧
      mutexUnlock kernel (some 0) = some (.ok, result) ∧
      kernel.waitHead (.mutex 0) = some 2 ∧ kernel.waitTail (.mutex 0) = some 3 ∧
      ∃ heir, HandedOver kernel result waits 0 heir := by
  obtain ⟨s, reached, found⟩ :=
    @exists_reachable_of_run System Action Started step UnlockKeepsBucket
      (fun s a => decide (UnlockKeepsBucket s a))
      (fun s => decide (s.kernel.currentTcb = some 1 ∧ s.kernel.state 1 ≠ .blocked ∧
        (s.kernel.mutex 0).locked = true ∧ (s.kernel.mutex 0).owner = some 1 ∧
        s.kernel.waitHead (.mutex 0) = some 2 ∧ s.kernel.waitTail (.mutex 0) = some 3))
      (fun _ _ checked => of_decide_eq_true checked)
      [.create (some 0) 100 256 (some 1) (some 0), .getNext, .call (.lock 0 0),
        .create (some 0) 10 256 (some 2) (some 0), .create (some 0) 10 256 (some 3) (some 0),
        .getNext, .call (.lock 0 0), .getNext, .call (.lock 0 0), .getNext]
      startedSystem started_startedSystem (by decide +kernel)
  obtain ⟨isCurrent, awake, locked, owner, first, last⟩ := of_decide_eq_true found
  have holds : SystemCoherent s :=
    Reachable.systemCoherent (fun _ _ permitted => permitted) reached
  obtain ⟨rings, waits, unlocking⟩ := holds.coherent.unlocking isCurrent awake locked owner
  obtain ⟨result, returned, handed, _⟩ :=
    (mutexUnlock_hands_over s.kernel 0 1 isCurrent).1 rings waits unlocking
  refine ⟨s.kernel, rings, waits, result, unlocking, returned, first, last, handed ?_⟩
  intro empty
  rw [unlocking.formed.waitLists.head_eq_none_iff.mpr empty] at first
  cases first

end MicrokernelRtos
