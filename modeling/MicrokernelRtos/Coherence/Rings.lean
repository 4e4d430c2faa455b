/-
The operations return and keep the ready rings.

The walks over the lists end because the lists are the ones of the coherence
relations.  A task that changes its priority while it is RUNNING is the one case
in which the scheduler does not move it; the lemmas about priority changes ask
for the bucket to stay in that case.
-/

import MicrokernelRtos.Coherence.Waits

namespace MicrokernelRtos

open Linked

variable {kernel result : Kernel} {rings : Bucket → List Addr} {waits : WaitId → List Addr}
variable {window : Addr → Option WaitId} {t self : Addr} {list : WaitId}

def Kernel.RingsHold (kernel : Kernel) : Prop := ∃ rings, RingCoherent kernel rings

/-! ### Steps that touch no ring -/

theorem RingCoherent.congr {other : Kernel} (coherent : RingCoherent kernel rings)
    (nextReady : other.nextReady = kernel.nextReady)
    (readyHead : other.readyHead = kernel.readyHead)
    (addCalls : other.addCalls = kernel.addCalls)
    (registry : other.taskRegistry = kernel.taskRegistry) (state : other.state = kernel.state)
    (bucket : other.prioBucket = kernel.prioBucket)
    (current : other.currentTcb = kernel.currentTcb) (idle : other.idleTcb = kernel.idleTcb)
    (mutex : other.mutex = kernel.mutex) : RingCoherent other rings := by
  refine ⟨⟨?_, ?_⟩, ?_⟩
  · rw [nextReady, readyHead]
    exact coherent.lists.family
  · rw [addCalls]
    exact coherent.lists.fresh
  · refine coherent.shape.congr registry state bucket current idle ?_
    rw [mutex]
    exact coherent.shape.owner

theorem OnlyWaits.ringCoherent {before after : Kernel} (frame : OnlyWaits before after)
    (coherent : RingCoherent before rings) : RingCoherent after rings := by
  refine ⟨frame.ringsAre coherent.lists, ?_⟩
  rw [frame.core]
  exact coherent.shape

theorem RingCoherent.setMutex {other : Kernel} {m : Nat} {value : Mutex}
    (coherent : RingCoherent kernel rings)
    (links : other.nextReady = kernel.nextReady ∧ other.readyHead = kernel.readyHead ∧
      other.addCalls = kernel.addCalls)
    (fields : ∃ onMutex, other.toCore = { kernel.toCore with
      mutex := Function.update kernel.mutex m value, blockedOnMutex := onMutex })
    (owner : ∀ o, value.owner = some o → some o ≠ kernel.idleTcb ∧ o ∈ kernel.taskRegistry) :
    RingCoherent other rings := by
  obtain ⟨onMutex, fields⟩ := fields
  refine ⟨⟨?_, ?_⟩, ?_⟩
  · rw [links.1, links.2.1]
    exact coherent.lists.family
  · rw [links.2.2]
    exact coherent.lists.fresh
  · rw [fields]
    refine coherent.shape.congr rfl rfl rfl rfl rfl ?_
    intro target o owns
    by_cases same : target = m
    · subst target
      simp only [Function.update_self] at owns
      exact ⟨(owner o owns).1, Or.inl (owner o owns).2⟩
    · simp only [Function.update_of_ne same] at owns
      exact coherent.shape.owner target o owns

/-! ### Blocking, waking and moving -/

theorem RingCoherent.notMem (coherent : RingCoherent kernel rings)
    (blocked : kernel.state t = .blocked) (bucket : Bucket) : t ∉ rings bucket := by
  intro member
  exact ((coherent.shape.member bucket t).mp member).2.2 blocked

theorem makeReady_rings (coherent : RingCoherent kernel rings)
    (registry : RegistryShape kernel.toCore) (live : t ∈ kernel.taskRegistry)
    (blocked : kernel.state t = .blocked) :
    ∃ result, makeReady kernel t = some result ∧ RingCoherent result
      (Function.update rings (kernel.prioBucket t) (rings (kernel.prioBucket t) ++ [t])) := by
  obtain ⟨result, returned, frame, lists⟩ :=
    makeReady_spec coherent.lists (coherent.length_le registry _) (coherent.notMem blocked)
  refine ⟨result, returned, lists, ?_⟩
  rw [frame.core]
  exact coherent.shape.ready live blocked

theorem RingCoherent.mem_erase (coherent : RingCoherent kernel rings) (bucket : Bucket)
    (item : Addr) :
    item ∈ Function.update rings (kernel.prioBucket t)
        ((rings (kernel.prioBucket t)).erase t) bucket ↔ item ∈ rings bucket ∧ item ≠ t := by
  by_cases same : bucket = kernel.prioBucket t
  · subst bucket
    rw [Function.update_self, (coherent.lists.family.ring _).distinct.mem_erase_iff, and_comm]
  · rw [Function.update_of_ne same]
    refine ⟨fun member => ⟨member, ?_⟩, And.left⟩
    rintro rfl
    exact same ((coherent.shape.member bucket item).mp member).2.1.symm

theorem blockRegion_rings {timeoutTicks : Nat} (coherent : RingCoherent kernel rings)
    (registry : RegistryShape kernel.toCore) (live : self ∈ kernel.taskRegistry)
    (notIdle : some self ≠ kernel.idleTcb) :
    ∃ result, blockRegion kernel self timeoutTicks = some result ∧ result.RingsHold := by
  obtain ⟨result, returned, frame, lists⟩ :=
    @blockRegion_spec kernel rings self timeoutTicks coherent.lists
      (coherent.length_le registry _)
  refine ⟨result, returned, _, lists, ?_⟩
  rw [frame.core]
  exact coherent.shape.block live notIdle timeoutTicks coherent.mem_erase

/-- A new priority.  A RUNNING task must stay in its bucket. -/
theorem changePriority_rings {tcb : Addr} {value : Nat} (coherent : RingCoherent kernel rings)
    (registry : RegistryShape kernel.toCore) (notIdle : some tcb ≠ kernel.idleTcb)
    (alive : tcb ∈ kernel.taskRegistry ∨ kernel.state tcb = .terminated)
    (still : kernel.state tcb = .running → prioBucket value = kernel.prioBucket tcb) :
    ∃ result, changePriority kernel tcb value = some result ∧ result.RingsHold := by
  have elsewhere : ∀ bucket, bucket ≠ kernel.prioBucket tcb → tcb ∉ rings bucket :=
    fun bucket different member =>
      different ((coherent.shape.member bucket tcb).mp member).2.1.symm
  obtain ⟨result, returned, lists⟩ := @changePriority_spec kernel rings tcb value coherent.lists
    (coherent.length_le registry) (fun _ => elsewhere)
  refine ⟨result, returned, _, lists, ?_⟩
  rw [(changePriority_onlyRings returned).core]
  refine coherent.shape.rebucket notIdle rfl rfl rfl rfl rfl rfl ?_
  intro index item
  by_cases isTask : item = tcb
  · subst item
    rw [mem_movedRings_self coherent.lists fun _ => elsewhere]
    by_cases same : kernel.prioBucket tcb = prioBucket value
    · rw [if_neg fun both => both.2 same, coherent.shape.member]
      simp [same, and_left_comm]
    · have notRunning : kernel.state tcb ≠ .running := fun runs => same (still runs).symm
      by_cases ready : kernel.state tcb = .ready
      · have live : tcb ∈ kernel.taskRegistry := by
          refine alive.resolve_right fun dead => ?_
          rw [ready] at dead
          cases dead
        rw [if_pos ⟨ready, same⟩]
        simp [live, ready, eq_comm]
      · have gone : ¬ (tcb ∈ kernel.taskRegistry ∧ kernel.state tcb ≠ .blocked) := by
          rintro ⟨live, awake⟩
          rcases coherent.shape.live tcb live with isReady | runs | blocked
          · exact ready isReady
          · exact notRunning runs
          · exact awake blocked
        rw [if_neg fun both => ready both.1, coherent.shape.member]
        simp only [ne_eq, not_true, false_and, true_and, false_or]
        exact ⟨fun inside => absurd ⟨inside.1, inside.2.2⟩ gone,
          fun inside => absurd inside.2 gone⟩
  · rw [mem_movedRings_of_ne isTask]
    simp [isTask]

theorem applyPi_rings {m : Nat} (coherent : RingCoherent kernel rings)
    (waiting : WaitCoherent kernel waits window)
    (stopped : ∀ owner, (kernel.mutex m).owner = some owner → kernel.state owner ≠ .running) :
    ∃ result, applyPi kernel m = some result ∧ result.RingsHold := by
  unfold applyPi
  cases ownerIs : (kernel.mutex m).owner with
  | none => exact ⟨kernel, rfl, rings, coherent⟩
  | some owner =>
      cases headAt : kernel.waitHead (.mutex m) with
      | none => exact ⟨kernel, rfl, rings, coherent⟩
      | some first =>
          have nonempty : waits (.mutex m) ≠ [] := fun empty => by
            rw [waiting.lists.head_eq_none_iff.mpr empty] at headAt
            cases headAt
          obtain ⟨value, minimum, _, _⟩ :=
            minWaitPriorityValue_spec waiting.lists (waiting.length_le _) nonempty
          simp only [minimum]
          split
          · exact changePriority_rings coherent waiting.registry
              (coherent.shape.owner m owner ownerIs).1 (coherent.shape.owner m owner ownerIs).2
              (fun runs => absurd runs (stopped owner ownerIs))
          · exact ⟨kernel, rfl, rings, coherent⟩

/-! ### The regions of the calls -/

theorem mutexLockRegion_rings {m : Nat} (rung : kernel.RingsHold)
    (waiting : WaitCoherent kernel waits window) (isCurrent : kernel.currentTcb = some self)
    (notIdle : some self ≠ kernel.idleTcb) (awake : kernel.state self ≠ .blocked)
    (outside : window self = none) :
    ∃ outcome result, mutexLockRegion kernel m self = some (outcome, result) ∧
      result.RingsHold := by
  obtain ⟨rings, coherent⟩ := rung
  have live := waiting.registry.current self isCurrent
  unfold mutexLockRegion
  split
  · exact ⟨_, _, rfl, rings, coherent⟩
  · rename_i notMine
    split
    · refine ⟨_, _, rfl, rings, ?_⟩
      refine coherent.setMutex ⟨rfl, rfl, rfl⟩ ⟨_, rfl⟩ ?_
      rintro o isOwner
      cases isOwner
      exact ⟨notIdle, live⟩
    · rename_i taken
      have locked : (kernel.mutex m).locked = true := by simpa using taken
      have noted : WaitCoherent (noteMutex kernel m self) waits window :=
        waiting.congr rfl rfl rfl rfl rfl rfl rfl
      obtain ⟨queued, enqueued, _⟩ :=
        @tcbEnqueueTail_spec (noteMutex kernel m self) waits (.mutex m) self noted.lists
          (fun other => noted.shape.notMem awake outside other)
      have frame := tcbEnqueueTail_onlyWaits enqueued
      have queuedRings : RingCoherent queued rings :=
        frame.ringCoherent (coherent.congr rfl rfl rfl rfl rfl rfl rfl rfl rfl)
      have stopped : ∀ owner, (queued.mutex m).owner = some owner →
          queued.state owner ≠ .running := by
        intro owner owns runs
        rw [frame.core] at owns runs
        refine notMine ⟨locked, ?_⟩
        rcases (coherent.shape.owner m owner owns).2 with inside | dead
        · have same := (coherent.shape.running owner inside runs).symm.trans isCurrent
          cases same
          exact owns
        · have clash : TaskState.terminated = TaskState.running := dead.symm.trans runs
          cases clash
      obtain ⟨boosted, boost, held⟩ := applyPi_rings queuedRings
        (tcbEnqueueTail_waits noted live awake outside enqueued) stopped
      exact ⟨.blocks, boosted, by simp [enqueued, boost], held⟩

theorem wakeHead_rings (rung : kernel.RingsHold) (waiting : WaitCoherent kernel waits window)
    (headBlocked : ∀ first, kernel.waitHead list = some first → kernel.state first = .blocked) :
    ∃ result, wakeHead kernel list = some result ∧ result.RingsHold := by
  obtain ⟨rings, coherent⟩ := rung
  unfold wakeHead
  cases shape : waits list with
  | nil =>
      rw [tcbPopHead_empty waiting.lists shape]
      exact ⟨kernel, rfl, rings, coherent⟩
  | cons first rest =>
      have popped := (tcbPopHead_spec waiting.lists shape).1
      have frame := tcbPopHead_onlyWaits kernel list
      have live := ((waiting.shape.member list first).mp (by rw [shape]; simp)).1
      have blocked := headBlocked first (waiting.lists.head_eq_some shape)
      obtain ⟨woken, wake, held⟩ := @makeReady_rings (tcbPopHead kernel list).2 rings first
        (frame.ringCoherent coherent) (by rw [frame.core]; exact waiting.registry)
        (by rw [frame.core]; exact live) (by rw [frame.core]; exact blocked)
      simp only [popped]
      rw [wake]
      exact ⟨_, rfl, _, held.congr rfl rfl rfl rfl rfl rfl rfl rfl rfl⟩

/-- An unlock by a caller that keeps its bucket if it is RUNNING. -/
theorem mutexUnlockRegion_rings {m : Nat} (rung : kernel.RingsHold)
    (waiting : WaitCoherent kernel waits window) (isCurrent : kernel.currentTcb = some self)
    (notIdle : some self ≠ kernel.idleTcb) (awake : kernel.state self ≠ .blocked)
    (outside : window self = none)
    (still : kernel.state self = .running →
      prioBucket (kernel.basePriority self) = kernel.prioBucket self)
    (heirBlocked : ∀ heir, firstHighest kernel.priority (waits (.mutex m)) = some heir →
      kernel.state heir = .blocked) :
    ∃ result, mutexUnlockRegion kernel m self = some result ∧ result.RingsHold := by
  obtain ⟨rings, coherent⟩ := rung
  have live := waiting.registry.current self isCurrent
  obtain ⟨restored, restore, restoredRings, restoredCoherent⟩ :=
    changePriority_rings coherent waiting.registry notIdle (Or.inl live) still
  have restoredWaits := changePriority_waits waiting restore
  have restoredCore := (changePriority_onlyRings restore).core
  unfold mutexUnlockRegion restoreOwnerPriority
  rw [restore, Option.bind_some]
  by_cases empty : waits (.mutex m) = []
  · rw [waitPopHighest_empty restoredWaits.lists empty]
    have free : RingCoherent (release restored m) restoredRings := by
      refine restoredCoherent.setMutex ⟨rfl, rfl, rfl⟩ ⟨_, rfl⟩ ?_
      intro o isOwner
      cases isOwner
    exact ⟨_, rfl, restoredRings, free.congr rfl rfl rfl rfl rfl rfl rfl rfl rfl⟩
  · obtain ⟨before, heir, after, popped, split, above, atLeast, pop, _⟩ :=
      waitPopHighest_spec restoredWaits.lists (restoredWaits.length_le _) empty
    have member : heir ∈ waits (.mutex m) := by simp [split]
    have agree : ∀ item ∈ waits (.mutex m), restored.priority item = kernel.priority item := by
      intro item inside
      rw [restoredCore]
      refine Function.update_of_ne ?_ _ _
      rintro rfl
      exact waiting.shape.notMem awake outside _ inside
    have chosen : firstHighest kernel.priority (waits (.mutex m)) = some heir := by
      rw [← firstHighest_congr agree, split]
      exact firstHighest_of_split above atLeast
    have frame := waitPopHighest_onlyWaits pop
    have poppedCore := frame.core.trans restoredCore
    have heirLive := ((waiting.shape.member _ heir).mp member).1
    have blocked := heirBlocked heir chosen
    have heirNotIdle : some heir ≠ kernel.idleTcb := by
      obtain ⟨idle, _, isIdle, idleAwake, _⟩ := coherent.shape.idle
      intro same
      rw [isIdle] at same
      cases same
      exact idleAwake blocked
    have handed : RingCoherent (handOver popped m heir) restoredRings := by
      refine (frame.ringCoherent restoredCoherent).setMutex ⟨rfl, rfl, rfl⟩ ⟨_, rfl⟩ ?_
      intro o isOwner
      cases isOwner
      rw [poppedCore]
      exact ⟨heirNotIdle, heirLive⟩
    obtain ⟨woken, wake, held⟩ := @makeReady_rings (handOver popped m heir) restoredRings heir
      handed
      (by rw [handOver, poppedCore]; exact waiting.registry.congr rfl rfl rfl)
      (by rw [handOver, poppedCore]; exact heirLive)
      (by rw [handOver, poppedCore]; exact blocked)
    rw [pop, Option.bind_some]
    simp only [wake]
    exact ⟨_, rfl, _, held.congr rfl rfl rfl rfl rfl rfl rfl rfl rfl⟩

/-! ### Ticks, selection, creation and deletion -/

theorem wakeIfDue_rings {now : Nat} (coherent : RingCoherent kernel rings)
    (waiting : WaitCoherent kernel waits window) (live : t ∈ kernel.taskRegistry) :
    ∃ result grown, wakeIfDue kernel now t = some result ∧ RingCoherent result grown ∧
      ∀ bucket, rings bucket <+: grown bucket := by
  by_cases expires : Expires kernel now t
  · obtain ⟨unlinked, removal, _⟩ := unlinkBlocked_spec waiting expires.blocked
    have frame := unlinkBlocked_onlyWaits removal
    obtain ⟨status, onMutex, written, _⟩ := timeoutFields_core (kernel.blockReason t) unlinked t
    rw [frame.core] at written
    have links := timeoutFields_links (kernel.blockReason t) unlinked t
    have writtenRings : RingCoherent (timeoutFields (kernel.blockReason t) unlinked t) rings := by
      refine coherent.congr ?_ ?_ ?_ ?_ ?_ ?_ ?_ ?_ ?_
      · rw [links, frame.nextReady]
      · rw [links, frame.readyHead]
      · rw [timeoutFields_addCalls, frame.addCalls]
      all_goals rw [written]
    obtain ⟨result, ready, held⟩ := @makeReady_rings _ rings t writtenRings
      (by rw [written]; exact waiting.registry.congr rfl rfl rfl)
      (by rw [written]; exact live) (by rw [written]; exact expires.blocked)
    rw [wakeIfDue_eq expires.1 expires.2, removal]
    refine ⟨result, _, ready, held, fun bucket => ?_⟩
    by_cases same : bucket = (timeoutFields (kernel.blockReason t) unlinked t).prioBucket t
    · rw [same, Function.update_self]
      exact List.prefix_append _ _
    · rewrite [Function.update_of_ne same]
      exact List.prefix_rfl
  · exact ⟨kernel, rings, wakeIfDue_of_not expires, coherent, fun _ => List.prefix_rfl⟩

theorem wakeIfDue_waits_all {now : Nat} (waiting : WaitCoherent kernel waits window)
    (returned : wakeIfDue kernel now t = some result) :
    ∃ changed, WaitCoherent result changed window := by
  by_cases expires : Expires kernel now t
  · exact ⟨_, wakeIfDue_waits waiting expires returned⟩
  · rw [wakeIfDue_of_not expires] at returned
    cases returned
    exact ⟨_, waiting⟩

theorem wakeLoop_rings {now : Nat} {items : List Addr} (coherent : RingCoherent kernel rings)
    (waiting : WaitCoherent kernel waits window) (live : ∀ t ∈ items, t ∈ kernel.taskRegistry) :
    ∃ result grown, wakeLoop now items kernel = some result ∧ RingCoherent result grown ∧
      ∀ bucket, rings bucket <+: grown bucket := by
  induction items generalizing kernel rings waits with
  | nil => exact ⟨kernel, rings, rfl, coherent, fun _ => List.prefix_rfl⟩
  | cons first rest ih =>
      obtain ⟨middle, more, wake, held, early⟩ :=
        wakeIfDue_rings coherent waiting (live first List.mem_cons_self)
      obtain ⟨changed, middleWaits⟩ := wakeIfDue_waits_all waiting wake
      have registry : middle.taskRegistry = kernel.taskRegistry := by
        rw [(wakeIfDue_wakes wake).fields]
      obtain ⟨result, grown, returned, done, late⟩ := ih held middleWaits fun t member => by
        rw [registry]
        exact live t (List.mem_cons_of_mem first member)
      exact ⟨result, grown, by rw [wakeLoop, wake, Option.bind_some, returned], done,
        fun bucket => (early bucket).trans (late bucket)⟩

theorem sysTickHandler_rings (coherent : RingCoherent kernel rings)
    (waiting : WaitCoherent kernel waits window) :
    ∃ result grown, sysTickHandler kernel = some result ∧ RingCoherent result grown ∧
      ∀ bucket, rings bucket <+: grown bucket := by
  have ticked : RingCoherent (rtosTickIncrement kernel) rings :=
    coherent.congr rfl rfl rfl rfl rfl rfl rfl rfl rfl
  have tickedWaits : WaitCoherent (rtosTickIncrement kernel) waits window :=
    waiting.congr rfl rfl rfl rfl rfl rfl rfl
  obtain ⟨woken, grown, wake, held, added⟩ :=
    @wakeLoop_rings (rtosTickIncrement kernel) rings waits window
      (rtosTickIncrement kernel).tickCount (rtosTickIncrement kernel).taskRegistry ticked
      tickedWaits (fun _ member => member)
  obtain ⟨sliced, slice⟩ := schedulerTimeSliceTick_returns woken
  have returned : sysTickHandler kernel = some (schedulerMarkReschedule sliced) := by
    unfold sysTickHandler rtosWakeDelayed
    rw [wake, Option.bind_some, slice, Option.map_some]
  obtain ⟨other, counter, wakeIs, resultIs⟩ := sysTickHandler_cases returned
  rw [rtosWakeDelayed, wake] at wakeIs
  cases wakeIs
  refine ⟨_, grown, returned, ?_, added⟩
  rw [resultIs]
  exact held.congr rfl rfl rfl rfl rfl rfl rfl rfl rfl

/-- The last ring holds at least the idle task, so something is always selected: the
first task of the first ring that is not empty, which goes to the end of its ring. -/
theorem schedulerGetNext_rings (coherent : RingCoherent kernel rings) :
    ∃ sel rest result, schedulerGetNext kernel = some (sel, result) ∧
      sel ∈ kernel.taskRegistry ∧ kernel.state sel ≠ .blocked ∧
      rings (kernel.prioBucket sel) = sel :: rest ∧
      (∀ lower, lower < kernel.prioBucket sel → rings lower = []) ∧
      RingCoherent result
        (Function.update rings (kernel.prioBucket sel) (rest ++ [sel])) := by
  obtain ⟨idle, member, _, awake, bucket⟩ := coherent.shape.idle
  have inRing : idle ∈ rings lastBucket :=
    (coherent.shape.member lastBucket idle).mpr ⟨member, bucket, awake⟩
  obtain ⟨chosen, sel, rest, result, split, lower, returned, frame, lists⟩ :=
    schedulerGetNext_spec coherent.lists ⟨lastBucket, List.ne_nil_of_mem inRing⟩
  obtain ⟨live, isChosen, selAwake⟩ :=
    (coherent.shape.member chosen sel).mp (by rw [split]; simp)
  subst chosen
  refine ⟨sel, rest, result, returned, live, selAwake, split, lower, lists, ?_⟩
  rw [frame.core]
  refine coherent.shape.select live selAwake ?_
  intro index item
  by_cases same : index = kernel.prioBucket sel
  · subst index
    rw [Function.update_self, split]
    simp [or_comm]
  · rw [Function.update_of_ne same]

theorem dispatch_rings {sel : Addr} (rung : kernel.RingsHold) (live : sel ∈ kernel.taskRegistry)
    (awake : kernel.state sel ≠ .blocked) :
    (dispatch (preemptCurrent kernel) sel).RingsHold := by
  obtain ⟨rings, coherent⟩ := rung
  have links : (dispatch (preemptCurrent kernel) sel).toLinks = kernel.toLinks :=
    (preemptCurrent_links kernel).1
  have addCalls : (dispatch (preemptCurrent kernel) sel).addCalls = kernel.addCalls :=
    (preemptCurrent_links kernel).2
  refine ⟨rings, ⟨?_, ?_⟩, coherent.shape.select live awake fun _ _ => Iff.rfl⟩
  · rw [links]
    exact coherent.lists.family
  · rw [addCalls]
    exact coherent.lists.fresh

theorem create_rings {tcb priority : Nat} (rung : kernel.RingsHold)
    (registry : RegistryShape kernel.toCore) (fresh : tcb ∉ kernel.taskRegistry) :
    ∃ added, schedulerAddTask (freshTask kernel tcb priority (prioBucket priority)) (some tcb) =
        some (.ok, added) ∧
      Kernel.RingsHold { added with taskRegistry := added.taskRegistry ++ [tcb] } := by
  obtain ⟨rings, coherent⟩ := rung
  have absent : ∀ bucket, tcb ∉ rings bucket := fun bucket member =>
    fresh ((coherent.shape.member bucket tcb).mp member).1
  have lists : (freshTask kernel tcb priority (prioBucket priority)).RingsAre rings := by
    refine ⟨coherent.lists.family.congr ?_, coherent.lists.fresh⟩
    intro bucket item member
    refine Function.update_of_ne ?_ _ _
    rintro rfl
    exact absent bucket member
  obtain ⟨added, addition, frame, addedLists⟩ :=
    schedulerAddTask_spec lists (coherent.length_le registry _) absent
      (Function.update_self _ _ _)
  refine ⟨added, addition, _, ⟨addedLists.family, addedLists.fresh⟩, ?_⟩
  have notIdle : some tcb ≠ kernel.idleTcb := by
    obtain ⟨idle, member, isIdle, _⟩ := coherent.shape.idle
    intro same
    rw [isIdle] at same
    cases same
    exact fresh member
  rw [frame.core]
  have bucketIs : (freshTask kernel tcb priority (prioBucket priority)).prioBucket tcb =
      prioBucket priority := Function.update_self _ _ _
  rw [bucketIs]
  refine coherent.shape.create fresh notIdle rfl (Function.update_self _ _ _) ?_ ?_ rfl rfl rfl ?_
  · exact fun item different => Function.update_of_ne different _ _
  · exact fun item different => Function.update_of_ne different _ _
  · intro index item
    by_cases same : index = prioBucket priority
    · subst index
      simp [freshTask]
    · simp [freshTask, same, Ne.symm same]

theorem delete_rings (rung : kernel.RingsHold) (waiting : WaitCoherent kernel waits window)
    (outside : window t = none) (notIdle : some t ≠ kernel.idleTcb) :
    ∃ detached removed, detachIfBlocked kernel t = some detached ∧
      schedulerRemoveTask detached (some t) = some removed ∧
      Kernel.RingsHold { removed with
        state := Function.update removed.state t .terminated
        taskRegistry := removed.taskRegistry.erase t } := by
  obtain ⟨rings, coherent⟩ := rung
  obtain ⟨detached, detachment, _⟩ := detachIfBlocked_spec waiting outside
  obtain ⟨reason, object, onMutex, fields, _⟩ := detachIfBlocked_core detachment
  obtain ⟨nextReady, readyHead, addCalls⟩ := detachIfBlocked_links detachment
  have detachedRings : RingCoherent detached rings := by
    refine coherent.congr nextReady readyHead addCalls ?_ ?_ ?_ ?_ ?_ ?_ <;> rw [fields]
  have detachedRegistry : RegistryShape detached.toCore := by
    rw [fields]
    exact waiting.registry.congr rfl rfl rfl
  obtain ⟨removed, removal, frame, lists⟩ :=
    @schedulerRemoveTask_spec detached rings t detachedRings.lists
      (detachedRings.length_le detachedRegistry _)
  refine ⟨detached, removed, detachment, removal, _, ⟨lists.family, lists.fresh⟩, ?_⟩
  have removedAll := @RingCoherent.mem_erase detached rings t detachedRings
  rw [frame.core, fields]
  rw [fields] at removedAll
  refine coherent.shape.delete waiting.registry.distinct notIdle rfl (Function.update_self _ _ _)
    ?_ rfl rfl rfl rfl removedAll
  exact fun item different => Function.update_of_ne different _ _

end MicrokernelRtos
