/-
One call of `mutex_lock` on a mutex that another task owns.

The caller joins the wait list, the owner gets the least of its own priority and
those of the waiters, a READY owner whose bucket has changed goes to the end of
its new ring, and the caller leaves its ring.  Every task has the bucket of its
priority before and after, and exactly the READY and RUNNING tasks are in the
rings.
-/

import MicrokernelRtos.Runs.Atomic
import Mathlib.Order.Bounds.Basic

namespace MicrokernelRtos

open Linked Transition

/-- Every task has the bucket of its priority, and the READY and RUNNING ones, and
no others, are in the rings, each in the one of its bucket. -/
structure RingsPlaced (kernel : Kernel) (rings : Bucket → List Addr) : Prop where
  lists : kernel.RingsAre rings
  bounded : ∀ t ∈ kernel.taskRegistry, t < kernel.config.poolSize
  bucket : ∀ t ∈ kernel.taskRegistry, (kernel.prioBucket t).val = kernel.priority t >>> 5
  member : ∀ bucket t, t ∈ rings bucket ↔ t ∈ kernel.taskRegistry ∧
    kernel.prioBucket t = bucket ∧ (kernel.state t = .ready ∨ kernel.state t = .running)

/-- The current task calls `mutex_lock` on a mutex that another task, READY or
BLOCKED, has locked. -/
structure Contended (kernel : Kernel) (rings : Bucket → List Addr) (waits : WaitId → List Addr)
    (m : Nat) (caller owner : Addr) : Prop where
  placed : RingsPlaced kernel rings
  waitLists : kernel.WaitsAre waits
  waiting : ∀ list, ∀ t ∈ waits list, t < kernel.config.poolSize
  current : kernel.currentTcb = some caller
  callerLive : caller ∈ kernel.taskRegistry
  callerAwake : kernel.state caller = .ready ∨ kernel.state caller = .running
  callerOut : ∀ list, caller ∉ waits list
  locked : (kernel.mutex m).locked = true
  isOwner : (kernel.mutex m).owner = some owner
  ownerLive : owner ∈ kernel.taskRegistry
  apart : owner ≠ caller
  ownerStopped : kernel.state owner = .ready ∨ kernel.state owner = .blocked

/-- What the call leaves, up to the caller being BLOCKED. -/
structure Boosted (kernel result : Kernel) (rings after : Bucket → List Addr)
    (waits : WaitId → List Addr) (m : Nat) (caller owner : Addr) : Prop where
  priority : IsLeast (kernel.priority '' {t | t = owner ∨ t ∈ waits (.mutex m) ∨ t = caller})
    (result.priority owner)
  bucket : (result.prioBucket owner).val = result.priority owner >>> 5
  others : ∀ t, t ≠ owner → result.priority t = kernel.priority t ∧
    result.prioBucket t = kernel.prioBucket t
  moves : kernel.state owner = .ready → result.prioBucket owner ≠ kernel.prioBucket owner →
    after (result.prioBucket owner) =
        (rings (result.prioBucket owner)).erase caller ++ [owner] ∧
      ∀ bucket, bucket ≠ result.prioBucket owner →
        after bucket = ((rings bucket).erase owner).erase caller
  stays : kernel.state owner = .blocked ∨ result.prioBucket owner = kernel.prioBucket owner →
    ∀ bucket, after bucket = (rings bucket).erase caller
  unringed : kernel.state owner = .blocked → ∀ bucket, owner ∉ after bucket
  callerBlocked : result.state caller = .blocked
  callerUnringed : ∀ bucket, caller ∉ after bucket
  waits : result.WaitsAre (Function.update waits (.mutex m) (waits (.mutex m) ++ [caller]))
  placed : RingsPlaced result after

variable {kernel result : Kernel} {rings : Bucket → List Addr} {waits : WaitId → List Addr}
variable {m : Nat} {caller owner : Addr}

theorem prioBucket_eq_of_val {bucket : Bucket} {priority : Nat}
    (isBucket : bucket.val = priority >>> 5) : prioBucket priority = bucket := by
  unfold prioBucket
  rw [dif_pos (isBucket ▸ bucket.isLt)]
  exact Fin.ext isBucket.symm

theorem RingsPlaced.only (placed : RingsPlaced kernel rings) (t : Addr) (bucket : Bucket)
    (different : bucket ≠ kernel.prioBucket t) : t ∉ rings bucket :=
  fun member => different ((placed.member bucket t).mp member).2.1.symm

theorem RingsPlaced.length_le (placed : RingsPlaced kernel rings) (bucket : Bucket) :
    (rings bucket).length ≤ kernel.walkLimit := by
  refine placed.lists.length_le (fun index t member => ?_) bucket
  exact placed.bounded t ((placed.member index t).mp member).1

/-- `_apply_pi` gives the owner the least priority of itself and the waiters. -/
theorem applyPi_spec (lists : kernel.RingsAre rings) (waitLists : kernel.WaitsAre waits)
    (ringLength : ∀ bucket, (rings bucket).length ≤ kernel.walkLimit)
    (waitLength : (waits (.mutex m)).length ≤ kernel.walkLimit)
    (nonempty : waits (.mutex m) ≠ []) (isOwner : (kernel.mutex m).owner = some owner)
    (only : ∀ bucket, bucket ≠ kernel.prioBucket owner → owner ∉ rings bucket)
    (bucket : prioBucket (kernel.priority owner) = kernel.prioBucket owner) :
    ∃ result value, applyPi kernel m = some result ∧
      IsLeast (kernel.priority '' {t | t = owner ∨ t ∈ waits (.mutex m)}) value ∧
      result.toCore = (priorityFields kernel owner value).toCore ∧
      result.RingsAre (movedRings kernel rings owner value) ∧ result.WaitsAre waits := by
  obtain ⟨first, rest, shape⟩ := List.exists_cons_of_ne_nil nonempty
  obtain ⟨least, minimum, below, item, member, isItem⟩ :=
    minWaitPriorityValue_spec waitLists waitLength nonempty
  have unfolded : applyPi kernel m =
      if least < kernel.priority owner then changePriority kernel owner least
      else some kernel := by
    unfold applyPi
    rw [isOwner, waitLists.head_eq_some shape]
    simp only [minimum]
  rw [unfolded]
  by_cases urgent : least < kernel.priority owner
  · obtain ⟨result, returned, moved⟩ :=
      @changePriority_spec kernel rings owner least lists ringLength fun _ => only
    have frame := changePriority_onlyRings returned
    rw [if_pos urgent]
    refine ⟨result, least, returned, ⟨⟨item, Or.inr member, isItem.symm⟩, ?_⟩, frame.core, moved,
      frame.waitsAre waitLists⟩
    rintro _ ⟨t, rfl | waits, rfl⟩
    · exact Nat.le_of_lt urgent
    · exact below t waits
  · rw [if_neg urgent]
    refine ⟨kernel, kernel.priority owner, rfl, ⟨⟨owner, Or.inl rfl, rfl⟩, ?_⟩, ?_, ?_, waitLists⟩
    · rintro _ ⟨t, rfl | waits, rfl⟩
      · exact Nat.le_refl _
      · exact (Nat.le_of_not_lt urgent).trans (below t waits)
    · unfold priorityFields
      rw [Function.update_eq_self, bucket, Function.update_eq_self]
    · unfold movedRings
      rw [if_neg fun both => both.2 bucket.symm]
      exact lists

theorem Contended.join (contended : Contended kernel rings waits m caller owner) :
    ∃ boosted value, mutexLockRegion kernel m caller = some (.blocks, boosted) ∧
      IsLeast (kernel.priority '' {t | t = owner ∨ t ∈ waits (.mutex m) ∨ t = caller}) value ∧
      boosted.toCore = (priorityFields (noteMutex kernel m caller) owner value).toCore ∧
      boosted.RingsAre (movedRings kernel rings owner value) ∧
      boosted.WaitsAre (Function.update waits (.mutex m) (waits (.mutex m) ++ [caller])) := by
  have placed := contended.placed
  obtain ⟨queued, enqueued, queuedWaits⟩ :=
    @tcbEnqueueTail_spec (noteMutex kernel m caller) waits (.mutex m) caller contended.waitLists
      contended.callerOut
  have frame := tcbEnqueueTail_onlyWaits enqueued
  have config : queued.config = kernel.config := by
    rw [frame.core]
    rfl
  have limit : queued.walkLimit = kernel.walkLimit := congrArg Config.poolSize config
  have priorities : queued.priority = kernel.priority := by
    rw [frame.core]
    rfl
  have buckets : queued.prioBucket = kernel.prioBucket := by
    rw [frame.core]
    rfl
  have states : queued.state = kernel.state := by
    rw [frame.core]
    rfl
  have isOwner : (queued.mutex m).owner = some owner := by
    rw [frame.core]
    exact contended.isOwner
  have inPool : ∀ list,
      ∀ t ∈ Function.update waits (.mutex m) (waits (.mutex m) ++ [caller]) list,
        t < queued.config.poolSize := by
    intro list t member
    rw [config]
    by_cases same : list = .mutex m
    · rw [same, Function.update_self, List.mem_append, List.mem_singleton] at member
      rcases member with old | isCaller
      · exact contended.waiting _ t old
      · rw [isCaller]
        exact placed.bounded caller contended.callerLive
    · rw [Function.update_of_ne same] at member
      exact contended.waiting list t member
  obtain ⟨boosted, value, returned, least, core, moved, boostedWaits⟩ :=
    @applyPi_spec queued rings _ m owner (frame.ringsAre ⟨placed.lists.family, placed.lists.fresh⟩)
      queuedWaits (by rw [limit]; exact placed.length_le) (queuedWaits.length_le inPool _)
      (by simp) isOwner (by rw [buckets]; exact placed.only owner)
      (by
        rw [buckets, priorities]
        exact prioBucket_eq_of_val (placed.bucket owner contended.ownerLive))
  refine ⟨boosted, value, ?_, ?_, ?_, ?_, boostedWaits⟩
  · have notMine : ¬ ((kernel.mutex m).locked = true ∧ (kernel.mutex m).owner = some caller) := by
      rintro ⟨_, mine⟩
      rw [contended.isOwner] at mine
      exact contended.apart (Option.some.inj mine)
    rw [mutexLockRegion, if_neg notMine, if_neg (by simp [contended.locked]), enqueued,
      Option.bind_some, returned, Option.map_some]
  · simpa [priorities] using least
  · rw [core, priorityFields, frame.core]
    rfl
  · have same : movedRings queued rings owner value = movedRings kernel rings owner value := by
      unfold movedRings
      rw [states, buckets]
    rw [← same]
    exact moved

structure LockWrites (kernel result : Kernel) (caller owner : Addr) (value : Nat) : Prop where
  priority : result.priority = Function.update kernel.priority owner value
  bucket : result.prioBucket = Function.update kernel.prioBucket owner (prioBucket value)
  state : result.state = Function.update kernel.state caller .blocked
  registry : result.taskRegistry = kernel.taskRegistry
  config : result.config = kernel.config

theorem Contended.block (contended : Contended kernel rings waits m caller owner)
    (timeoutTicks : Nat) :
    ∃ result value, mutexLock kernel (some m) timeoutTicks = some (.blocks, result) ∧
      IsLeast (kernel.priority '' {t | t = owner ∨ t ∈ waits (.mutex m) ∨ t = caller}) value ∧
      LockWrites kernel result caller owner value ∧
      result.RingsAre (fun bucket => (movedRings kernel rings owner value bucket).erase caller) ∧
      (∀ bucket, caller ∉ (movedRings kernel rings owner value bucket).erase caller) ∧
      result.WaitsAre (Function.update waits (.mutex m) (waits (.mutex m) ++ [caller])) := by
  have placed := contended.placed
  obtain ⟨boosted, value, joined, least, core, moved, boostedWaits⟩ := contended.join
  have callerApart : caller ≠ owner := Ne.symm contended.apart
  have current : boosted.currentTcb = some caller := by
    rw [core]
    exact contended.current
  have limit : boosted.walkLimit = kernel.walkLimit := by
    have same : boosted.config = kernel.config := by
      rw [core]
      rfl
    exact congrArg Config.poolSize same
  have callerBucket : boosted.prioBucket caller = kernel.prioBucket caller := by
    rw [core]
    exact Function.update_of_ne callerApart _ _
  have inPool : ∀ bucket, ∀ t ∈ movedRings kernel rings owner value bucket,
      t < boosted.walkLimit := by
    intro bucket t member
    rw [limit]
    by_cases same : t = owner
    · rw [same]
      exact placed.bounded owner contended.ownerLive
    · have inRing := (mem_movedRings_of_ne same bucket).mp member
      exact placed.bounded t ((placed.member bucket t).mp inRing).1
  obtain ⟨result, blocked, frame, left⟩ :=
    @blockRegion_spec (blockFields boosted caller .mutex (some m)) _ caller timeoutTicks
      (show (blockFields boosted caller .mutex (some m)).RingsAre _ from
        ⟨moved.family, moved.fresh⟩)
      (moved.length_le inPool _)
  have erased : Function.update (movedRings kernel rings owner value) (kernel.prioBucket caller)
      ((movedRings kernel rings owner value (kernel.prioBucket caller)).erase caller) =
      fun bucket => (movedRings kernel rings owner value bucket).erase caller := by
    funext bucket
    by_cases same : bucket = kernel.prioBucket caller
    · rw [same, Function.update_self]
    · rw [Function.update_of_ne same, List.erase_of_not_mem]
      rw [mem_movedRings_of_ne callerApart]
      exact placed.only caller bucket same
  refine ⟨result, value, ?_, least, ?_, ?_,
    fun bucket => (moved.family.ring bucket).distinct.not_mem_erase, frame.waitsAre boostedWaits⟩
  · simp only [mutexLock, contended.current, blockingPass, joined, Option.bind_some,
      rtosBlockCurrent, current, blocked, Option.map_some]
  · refine ⟨?_, ?_, ?_, ?_, ?_⟩ <;> rw [frame.core, schedulerMarkReschedule, blockState,
      blockFields, core] <;> rfl
  · have isBucket : (blockFields boosted caller .mutex (some m)).prioBucket caller =
        kernel.prioBucket caller := callerBucket
    rw [isBucket, erased] at left
    exact left

theorem Contended.value_le (contended : Contended kernel rings waits m caller owner) {value : Nat}
    (least : IsLeast (kernel.priority '' {t | t = owner ∨ t ∈ waits (.mutex m) ∨ t = caller})
      value) : (prioBucket value).val = value >>> 5 := by
  have below : value ≤ kernel.priority owner := least.2 ⟨owner, Or.inl rfl, rfl⟩
  have isBucket := contended.placed.bucket owner contended.ownerLive
  have fits : value >>> 5 < 8 := by
    have limit := (kernel.prioBucket owner).isLt
    rw [isBucket, Nat.shiftRight_eq_div_pow] at limit
    rw [Nat.shiftRight_eq_div_pow]
    exact Nat.lt_of_le_of_lt (Nat.div_le_div_right below) limit
  unfold prioBucket
  rw [dif_pos fits]

theorem Contended.placed_after (contended : Contended kernel rings waits m caller owner)
    {value : Nat} (isBucket : (prioBucket value).val = value >>> 5)
    (writes : LockWrites kernel result caller owner value)
    (lists : result.RingsAre
      (fun bucket => (movedRings kernel rings owner value bucket).erase caller))
    (gone : ∀ bucket, caller ∉ (movedRings kernel rings owner value bucket).erase caller) :
    RingsPlaced result
      (fun bucket => (movedRings kernel rings owner value bucket).erase caller) := by
  have placed := contended.placed
  refine ⟨lists, ?_, ?_, ?_⟩
  · rw [writes.registry, writes.config]
    exact placed.bounded
  · intro t live
    rw [writes.registry] at live
    rw [writes.bucket, writes.priority]
    by_cases same : t = owner
    · rw [same, Function.update_self, Function.update_self]
      exact isBucket
    · rw [Function.update_of_ne same, Function.update_of_ne same]
      exact placed.bucket t live
  · intro bucket t
    rw [writes.registry, writes.bucket, writes.state]
    by_cases isCaller : t = caller
    · subst t
      simp [gone bucket]
    rw [List.mem_erase_of_ne isCaller, Function.update_of_ne isCaller]
    by_cases same : t = owner
    · subst t
      rw [mem_movedRings_self placed.lists fun _ => placed.only owner, Function.update_self]
      rcases contended.ownerStopped with ready | blocked
      · by_cases stays : kernel.prioBucket owner = prioBucket value
        · rw [if_neg fun both => both.2 stays, placed.member, stays]
        · rw [if_pos ⟨ready, stays⟩]
          simp [contended.ownerLive, ready, eq_comm]
      · rw [if_neg (by simp [blocked]), placed.member]
        simp [blocked]
    · rw [mem_movedRings_of_ne same, Function.update_of_ne same]
      exact placed.member bucket t

/-- A contended lock gives the owner the least priority of itself, the waiters and
the caller, and puts it where that priority belongs. -/
theorem mutexLock_boosts (kernel : Kernel) (rings : Bucket → List Addr)
    (waits : WaitId → List Addr) (m : Nat) (caller owner : Addr) (timeoutTicks : Nat)
    (contended : Contended kernel rings waits m caller owner) :
    ∃ result after, mutexLock kernel (some m) timeoutTicks = some (.blocks, result) ∧
      Boosted kernel result rings after waits m caller owner := by
  obtain ⟨result, value, returned, least, writes, lists, gone, joined⟩ :=
    contended.block timeoutTicks
  have isBucket := contended.value_le least
  have ownerPriority : result.priority owner = value := by
    rw [writes.priority, Function.update_self]
  have ownerBucket : result.prioBucket owner = prioBucket value := by
    rw [writes.bucket, Function.update_self]
  have afterPlaced := contended.placed_after isBucket writes lists gone
  refine ⟨result, _, returned, ?_, ?_, ?_, ?_, ?_, ?_, ?_, gone, joined, afterPlaced⟩
  · rw [ownerPriority]
    exact least
  · rw [ownerBucket, ownerPriority]
    exact isBucket
  · intro t different
    rw [writes.priority, writes.bucket]
    exact ⟨Function.update_of_ne different _ _, Function.update_of_ne different _ _⟩
  · intro ready changed
    rw [ownerBucket] at changed ⊢
    unfold movedRings
    rw [if_pos ⟨ready, Ne.symm changed⟩]
    refine ⟨?_, fun bucket different => ?_⟩
    · rw [Function.update_self]
      by_cases inside : caller ∈ rings (prioBucket value)
      · rw [List.erase_append_left _ inside]
      · rw [List.erase_append_right _ inside, List.erase_of_not_mem inside,
          List.erase_of_not_mem (by simp [Ne.symm contended.apart])]
    · rw [Function.update_of_ne different]
      by_cases atOld : bucket = kernel.prioBucket owner
      · rw [atOld, Function.update_self]
      · rw [Function.update_of_ne atOld,
          List.erase_of_not_mem (contended.placed.only owner bucket atOld)]
  · intro unmoved bucket
    rw [ownerBucket] at unmoved
    unfold movedRings
    rw [if_neg]
    rintro ⟨ready, changed⟩
    rcases unmoved with blocked | same
    · rw [ready] at blocked
      cases blocked
    · exact changed same.symm
  · intro blocked bucket member
    have inRing := ((afterPlaced.member bucket owner).mp member).2.2
    rw [writes.state, Function.update_of_ne contended.apart, blocked] at inRing
    simp at inRing
  · rw [writes.state, Function.update_self]

/-- In the runs it is enough that every task has the bucket of its priority and
that the owner is not deleted. -/
theorem Coherent.contended (coherent : Coherent kernel noWindow)
    (bucket : ∀ t ∈ kernel.taskRegistry, (kernel.prioBucket t).val = kernel.priority t >>> 5)
    (isCurrent : kernel.currentTcb = some caller) (awake : kernel.state caller ≠ .blocked)
    (locked : (kernel.mutex m).locked = true) (isOwner : (kernel.mutex m).owner = some owner)
    (ownerLive : owner ∈ kernel.taskRegistry) (apart : owner ≠ caller) :
    ∃ rings waits, Contended kernel rings waits m caller owner := by
  obtain ⟨⟨rings, ringed⟩, waits, waiting⟩ := coherent
  have registry := waiting.registry
  have callerLive := registry.current caller isCurrent
  have placed : RingsPlaced kernel rings := by
    refine ⟨ringed.lists, registry.bounded, bucket, fun index t => ?_⟩
    rw [ringed.shape.member]
    refine and_congr_right fun live => and_congr_right fun _ => ?_
    rcases ringed.shape.live t live with ready | running | blocked
    · simp [ready]
    · simp [running]
    · simp [blocked]
  refine ⟨rings, waits, placed, waiting.lists, ?_, isCurrent, callerLive, ?_, ?_, locked, isOwner,
    ownerLive, apart, ?_⟩
  · exact fun list t member => registry.bounded t ((waiting.shape.member list t).mp member).1
  · rcases ringed.shape.live caller callerLive with ready | running | blocked
    · exact Or.inl ready
    · exact Or.inr running
    · exact absurd blocked awake
  · exact waiting.shape.notMem awake rfl
  · rcases ringed.shape.live owner ownerLive with ready | running | blocked
    · exact Or.inl ready
    · have same := (ringed.shape.running owner ownerLive running).symm.trans isCurrent
      exact absurd (Option.some.inj same) apart
    · exact Or.inr blocked

theorem mutexLock_boosts_ready :
    ∃ kernel rings waits result after, Contended kernel rings waits 0 2 1 ∧
      kernel.state 1 = .ready ∧ kernel.priority 1 = 100 ∧ kernel.priority 2 = 10 ∧
      mutexLock kernel (some 0) 0 = some (.blocks, result) ∧
      Boosted kernel result rings after waits 0 2 1 := by
  obtain ⟨s, reached, found⟩ :=
    @exists_reachable_of_run System Action Started step UnlockKeepsBucket
      (fun s a => decide (UnlockKeepsBucket s a))
      (fun s => decide ((∀ t ∈ s.kernel.taskRegistry,
          (s.kernel.prioBucket t).val = s.kernel.priority t >>> 5) ∧
        s.kernel.currentTcb = some 2 ∧ s.kernel.state 2 ≠ .blocked ∧
        (s.kernel.mutex 0).locked = true ∧ (s.kernel.mutex 0).owner = some 1 ∧
        1 ∈ s.kernel.taskRegistry ∧ s.kernel.state 1 = .ready ∧ s.kernel.priority 1 = 100 ∧
        s.kernel.priority 2 = 10))
      (fun _ _ checked => of_decide_eq_true checked)
      [.create (some 0) 100 256 (some 1) (some 0), .getNext, .call (.lock 0 0),
        .create (some 0) 10 256 (some 2) (some 0), .getNext]
      startedSystem started_startedSystem (by decide +kernel)
  obtain ⟨bucket, isCurrent, awake, locked, isOwner, live, ready, low, high⟩ :=
    of_decide_eq_true found
  have holds : SystemCoherent s :=
    Reachable.systemCoherent (fun _ _ permitted => permitted) reached
  obtain ⟨rings, waits, contended⟩ :=
    holds.coherent.contended bucket isCurrent awake locked isOwner live (by decide)
  obtain ⟨result, after, returned, boosted⟩ :=
    mutexLock_boosts s.kernel rings waits 0 2 1 0 contended
  exact ⟨s.kernel, rings, waits, result, after, contended, ready, low, high, returned, boosted⟩

end MicrokernelRtos
