/-
The turns of the tasks in whole runs of the kernel.

Between two selections the calls, the ticks, the creations and the deletions take tasks
out of the ready rings and put tasks at their ends.  A task that is not blocked stays
where it is, as long as nothing moves it to another bucket: nobody comes in front of it.
-/

import MicrokernelRtos.Runs.Preemption
import MicrokernelRtos.Runs.ReadyQueues

namespace MicrokernelRtos

open Linked Transition RoundRobin

/-! ### What the operations do to the order of a ring -/

/-- The rings have lists, in which nobody has come in front of the task. -/
def RingsTrail (t : Addr) (p : Bucket) (rings : Bucket → List Addr) (result : Kernel) : Prop :=
  ∃ changed, result.RingsAre changed ∧ Trails t (rings p) (changed p)

section Operations

variable {kernel result : Kernel} {rings changed : Bucket → List Addr}
variable {waits : WaitId → List Addr} {t self tcb : Addr} {p : Bucket} {list : WaitId}

theorem Kernel.RingsAre.unique (left : kernel.RingsAre rings) (right : kernel.RingsAre changed) :
    rings = changed := by
  funext bucket
  exact (left.family.ring bucket).unique (right.family.ring bucket)

theorem RingsTrail.refl (lists : kernel.RingsAre rings) : RingsTrail t p rings kernel :=
  ⟨rings, lists, Trails.refl t (rings p)⟩

theorem RingsTrail.congr {other : Kernel} (trail : RingsTrail t p rings result)
    (nextReady : other.nextReady = result.nextReady)
    (readyHead : other.readyHead = result.readyHead)
    (addCalls : other.addCalls = result.addCalls) : RingsTrail t p rings other := by
  obtain ⟨changed, lists, trails⟩ := trail
  refine ⟨changed, ⟨?_, ?_⟩, trails⟩
  · rw [nextReady, readyHead]
    exact lists.family
  · rw [addCalls]
    exact lists.fresh

theorem RingsTrail.trails (trail : RingsTrail t p rings result) (lists : result.RingsAre changed) :
    Trails t (rings p) (changed p) := by
  obtain ⟨other, otherLists, trails⟩ := trail
  rw [lists.unique otherLists]
  exact trails

theorem RingsTrail.appended {bucket : Bucket}
    (lists : result.RingsAre (Function.update rings bucket (rings bucket ++ [tcb])))
    (different : t ≠ tcb) : RingsTrail t p rings result := by
  refine ⟨_, lists, ?_⟩
  by_cases here : p = bucket
  · subst here
    rw [Function.update_self]
    exact Trails.append _ (by simpa using different)
  · rw [Function.update_of_ne here]
    exact Trails.refl t _

theorem RingsTrail.erased {bucket : Bucket}
    (lists : result.RingsAre (Function.update rings bucket ((rings bucket).erase tcb))) :
    RingsTrail t p rings result := by
  refine ⟨_, lists, ?_⟩
  by_cases here : p = bucket
  · subst here
    rw [Function.update_self]
    exact Trails.of_sublist List.erase_sublist
  · rw [Function.update_of_ne here]
    exact Trails.refl t _

theorem makeReady_trail (lists : kernel.RingsAre rings)
    (enough : (rings (kernel.prioBucket tcb)).length ≤ kernel.walkLimit)
    (absent : ∀ bucket, tcb ∉ rings bucket) (different : t ≠ tcb)
    (returned : makeReady kernel tcb = some result) : RingsTrail t p rings result := by
  obtain ⟨woken, again, _, lists⟩ := makeReady_spec lists enough absent
  cases returned.symm.trans again
  exact RingsTrail.appended lists different

theorem blockRegion_trail {ticks : Nat} (coherent : RingCoherent kernel rings)
    (registry : RegistryShape kernel.toCore)
    (returned : blockRegion kernel self ticks = some result) : RingsTrail t p rings result := by
  obtain ⟨blocked, again, _, lists⟩ :=
    @blockRegion_spec kernel rings self ticks coherent.lists (coherent.length_le registry _)
  cases returned.symm.trans again
  exact RingsTrail.erased lists

/-- A task that moves is not at the end of the bucket it was in. -/
theorem changePriority_trail {value : Nat} (coherent : RingCoherent kernel rings)
    (registry : RegistryShape kernel.toCore)
    (returned : changePriority kernel tcb value = some result) :
    RingsTrail t (kernel.prioBucket t) rings result := by
  have elsewhere : ∀ bucket, bucket ≠ kernel.prioBucket tcb → tcb ∉ rings bucket :=
    fun bucket different member =>
      different ((coherent.shape.member bucket tcb).mp member).2.1.symm
  obtain ⟨moved, again, lists⟩ := @changePriority_spec kernel rings tcb value coherent.lists
    (coherent.length_le registry) (fun _ => elsewhere)
  cases returned.symm.trans again
  refine ⟨_, lists, ?_⟩
  unfold movedRings
  split
  · rename_i moves
    by_cases atNew : kernel.prioBucket t = prioBucket value
    · have different : t ≠ tcb := by
        rintro rfl
        exact moves.2 atNew
      rw [atNew, Function.update_self]
      exact Trails.append _ (by simpa using different)
    · rw [Function.update_of_ne atNew]
      by_cases atOld : kernel.prioBucket t = kernel.prioBucket tcb
      · rw [atOld, Function.update_self]
        exact Trails.of_sublist List.erase_sublist
      · rw [Function.update_of_ne atOld]
        exact Trails.refl t _
  · exact Trails.refl t _

end Operations

/-! ### What the calls do to it -/

section Calls

variable {kernel result : Kernel} {rings : Bucket → List Addr} {waits : WaitId → List Addr}
variable {t self : Addr} {list : WaitId} {call : Call} {outcome : Outcome}

theorem wakeHead_trail {p : Bucket} (coherent : RingCoherent kernel rings)
    (waiting : WaitCoherent kernel waits noWindow) (awake : kernel.state t ≠ .blocked)
    (returned : wakeHead kernel list = some result) : RingsTrail t p rings result := by
  rcases wakeHead_cases returned with ⟨_, rfl⟩ | ⟨first, woken, headAt, wake, rfl⟩
  · exact RingsTrail.refl coherent.lists
  · have frame := tcbPopHead_onlyWaits kernel list
    have member : first ∈ waits list := by
      rw [(waiting.lists.queue list).head_eq] at headAt
      exact List.mem_of_head? headAt
    have blocked := waiting.mem_blocked member
    have different : t ≠ first := by
      rintro rfl
      exact awake blocked
    have popped := frame.ringCoherent coherent
    have registry : RegistryShape (tcbPopHead kernel list).2.toCore := by
      rw [frame.core]
      exact waiting.registry
    have stillBlocked : (tcbPopHead kernel list).2.state first = .blocked := by
      rw [frame.core]
      exact blocked
    exact (makeReady_trail popped.lists (popped.length_le registry _)
      (popped.notMem stillBlocked) different wake).congr rfl rfl rfl

theorem enqueue_trail {p : Bucket} (coherent : RingCoherent kernel rings)
    (returned : (tcbEnqueueTail kernel list self).map (fun queued => (Outcome.blocks, queued)) =
      some (outcome, result)) : RingsTrail t p rings result := by
  obtain ⟨queued, enqueued, equal⟩ := Option.map_eq_some_iff.mp returned
  cases equal
  exact RingsTrail.refl ((tcbEnqueueTail_onlyWaits enqueued).ringsAre coherent.lists)

theorem lockRegion_trail {m : Nat} (coherent : RingCoherent kernel rings)
    (waiting : WaitCoherent kernel waits noWindow)
    (returned : mutexLockRegion kernel m self = some (outcome, result)) :
    RingsTrail t (kernel.prioBucket t) rings result := by
  rcases mutexLockRegion_cases returned with
    ⟨_, _, _, rfl⟩ | ⟨_, _, rfl⟩ | ⟨_, _, _, queued, enqueued, boost⟩
  · exact RingsTrail.refl coherent.lists
  · exact (RingsTrail.refl coherent.lists).congr rfl rfl rfl
  · have frame := tcbEnqueueTail_onlyWaits enqueued
    have noted : RingCoherent (noteMutex kernel m self) rings :=
      coherent.congr rfl rfl rfl rfl rfl rfl rfl rfl rfl
    have joined : RingCoherent queued rings := frame.ringCoherent noted
    have bucket : queued.prioBucket = kernel.prioBucket := by
      rw [frame.core]
      rfl
    have registry : RegistryShape queued.toCore := by
      rw [frame.core]
      exact waiting.registry.congr rfl rfl rfl
    rcases applyPi_cases boost with rfl | ⟨owner, hp, _, _, _, changed⟩
    · exact RingsTrail.refl joined.lists
    · rw [← bucket]
      exact changePriority_trail joined registry changed

theorem unlockRegion_trail {m : Nat} (coherent : RingCoherent kernel rings)
    (waiting : WaitCoherent kernel waits noWindow) (isCurrent : kernel.currentTcb = some self)
    (notIdle : some self ≠ kernel.idleTcb)
    (still : kernel.state self = .running →
      prioBucket (kernel.basePriority self) = kernel.prioBucket self)
    (awake : kernel.state t ≠ .blocked)
    (returned : mutexUnlockRegion kernel m self = some result) :
    RingsTrail t (kernel.prioBucket t) rings result := by
  have live := waiting.registry.current self isCurrent
  obtain ⟨restored, next, popped, restore, pop, ending⟩ := mutexUnlockRegion_cases returned
  obtain ⟨changed, lists, trails⟩ : RingsTrail t (kernel.prioBucket t) rings restored :=
    changePriority_trail coherent waiting.registry restore
  obtain ⟨again, restoreAgain, otherRings, other⟩ :=
    changePriority_rings coherent waiting.registry notIdle (Or.inl live) still
  cases restore.symm.trans restoreAgain
  cases lists.unique other.lists
  have restoredWaits := changePriority_waits waiting restore
  have restoredCore := (changePriority_onlyRings restore).core
  have frame := waitPopHighest_onlyWaits pop
  have poppedLists := frame.ringsAre lists
  rcases ending with ⟨rfl, rfl⟩ | ⟨heir, woken, rfl, wake, rfl⟩
  · exact ⟨changed, ⟨poppedLists.family, poppedLists.fresh⟩, trails⟩
  · have nonempty : waits (.mutex m) ≠ [] := by
      intro empty
      rw [waitPopHighest_empty restoredWaits.lists empty] at pop
      cases pop
    obtain ⟨before, best, after, _, split, _, _, popAgain, _⟩ :=
      waitPopHighest_spec restoredWaits.lists (restoredWaits.length_le _) nonempty
    cases pop.symm.trans popAgain
    have member : heir ∈ waits (.mutex m) := by simp [split]
    have blocked := waiting.mem_blocked member
    have different : t ≠ heir := by
      rintro rfl
      exact awake blocked
    have stillBlocked : restored.state heir = .blocked := by
      rw [restoredCore]
      exact blocked
    have core := frame.core
    have handedLists : (handOver popped m heir).RingsAre changed :=
      ⟨poppedLists.family, poppedLists.fresh⟩
    have enough : (changed ((handOver popped m heir).prioBucket heir)).length ≤
        (handOver popped m heir).walkLimit := by
      have bound := other.length_le restoredWaits.registry (restored.prioBucket heir)
      unfold Kernel.walkLimit at bound ⊢
      simp only [handOver, core]
      exact bound
    obtain ⟨last, lastLists, lastTrails⟩ : RingsTrail t (kernel.prioBucket t) changed woken :=
      makeReady_trail handedLists enough (other.notMem stillBlocked) different wake
    exact ⟨last, ⟨lastLists.family, lastLists.fresh⟩, trails.trans lastTrails⟩

theorem post_trail {p : Bucket} {sem : Nat} {status : Status}
    (coherent : RingCoherent kernel rings) (waiting : WaitCoherent kernel waits noWindow)
    (awake : kernel.state t ≠ .blocked)
    (returned : semaphorePostRegion kernel sem = some (status, result)) :
    RingsTrail t p rings result := by
  rw [semaphorePostRegion_eq] at returned
  split at returned
  · cases returned
    exact RingsTrail.refl coherent.lists
  · obtain ⟨woken, wake, equal⟩ := Option.map_eq_some_iff.mp returned
    cases equal
    have raised : RingCoherent (setCount kernel sem ((kernel.semaphore sem).count + 1)) rings :=
      coherent.congr rfl rfl rfl rfl rfl rfl rfl rfl rfl
    exact (wakeHead_trail raised (waiting.congr rfl rfl rfl rfl rfl rfl rfl) awake wake).congr
      rfl rfl rfl

theorem callRegion_trail (coherent : RingCoherent kernel rings)
    (waiting : WaitCoherent kernel waits noWindow) (isCurrent : kernel.currentTcb = some self)
    (notIdle : some self ≠ kernel.idleTcb) (bucket : KeepsBucket kernel self call)
    (awake : kernel.state t ≠ .blocked)
    (returned : callRegion kernel self call = some (outcome, result)) :
    RingsTrail t (kernel.prioBucket t) rings result := by
  cases call with
  | lock m ticks => exact lockRegion_trail coherent waiting returned
  | unlock m =>
      obtain ⟨unlocked, region, equal⟩ := Option.map_eq_some_iff.mp returned
      cases equal
      exact unlockRegion_trail coherent waiting isCurrent notIdle bucket awake region
  | wait sem ticks =>
      simp only [callRegion, semaphoreWaitRegion] at returned
      split at returned
      · cases returned
        exact (RingsTrail.refl coherent.lists).congr rfl rfl rfl
      · exact enqueue_trail coherent returned
  | post sem =>
      obtain ⟨posted, region, equal⟩ := Option.map_eq_some_iff.mp returned
      cases equal
      exact post_trail coherent waiting awake region
  | send q msg ticks =>
      simp only [callRegion, msgQueueSendRegion] at returned
      split at returned
      · obtain ⟨woken, wake, equal⟩ := Option.map_eq_some_iff.mp returned
        cases equal
        have pushed : RingCoherent (setQueue kernel q (pushMessage (kernel.msgQueue q) msg))
            rings := coherent.congr rfl rfl rfl rfl rfl rfl rfl rfl rfl
        exact wakeHead_trail pushed (waiting.congr rfl rfl rfl rfl rfl rfl rfl) awake wake
      · exact enqueue_trail coherent returned
  | recv q ticks =>
      simp only [callRegion, msgQueueRecvRegion] at returned
      split at returned
      · obtain ⟨woken, wake, equal⟩ := Option.map_eq_some_iff.mp returned
        cases equal
        have taken : RingCoherent (setQueue kernel q (popMessage (kernel.msgQueue q))) rings :=
          coherent.congr rfl rfl rfl rfl rfl rfl rfl rfl rfl
        exact wakeHead_trail taken (waiting.congr rfl rfl rfl rfl rfl rfl rfl) awake wake
      · exact enqueue_trail coherent returned
  | delay ticks =>
      cases returned
      exact RingsTrail.refl coherent.lists

theorem callPass_trail (holds : Coherent kernel noWindow) (coherent : RingCoherent kernel rings)
    (isCurrent : kernel.currentTcb = some self) (notIdle : some self ≠ kernel.idleTcb)
    (selfAwake : kernel.state self ≠ .blocked)
    (bucket : callRefused kernel self call = none → KeepsBucket kernel self call)
    (awake : kernel.state t ≠ .blocked)
    (returned : callPass kernel self call = some (outcome, result)) :
    RingsTrail t (kernel.prioBucket t) rings result := by
  obtain ⟨waits, waiting⟩ := holds.waits
  unfold callPass at returned
  split at returned
  · cases returned
    exact RingsTrail.refl coherent.lists
  · rename_i accepted
    obtain ⟨⟨early, entered⟩, region, onward⟩ := Option.bind_eq_some_iff.mp returned
    obtain ⟨_, _, again, keeps⟩ := callRegion_keeps holds isCurrent notIdle selfAwake rfl call
      (popsBlocked_of_noWindow holds call) (bucket accepted)
    cases region.symm.trans again
    have trail := callRegion_trail coherent waiting isCurrent notIdle (bucket accepted) awake region
    cases early with
    | returns status out =>
        cases onward
        exact trail
    | blocks =>
        obtain ⟨changed, lists, trails⟩ := trail
        obtain ⟨otherRings, other⟩ := keeps.coherent.rings
        cases lists.unique other.lists
        have current : entered.currentTcb = some self := keeps.quiet.current.trans isCurrent
        simp only [rtosBlockCurrent, current] at onward
        obtain ⟨blocked, block, equal⟩ := Option.map_eq_some_iff.mp onward
        cases equal
        have armed : RingCoherent (blockFields entered self call.reason call.object) changed :=
          other.congr rfl rfl rfl rfl rfl rfl rfl rfl rfl
        obtain ⟨last, lastLists, lastTrails⟩ : RingsTrail t (kernel.prioBucket t) changed result :=
          blockRegion_trail armed (keeps.coherent.registry.congr rfl rfl rfl) block
        exact ⟨last, lastLists, trails.trans lastTrails⟩

theorem unstarted_trail (holds : Coherent kernel noWindow) (coherent : RingCoherent kernel rings)
    (nobody : kernel.currentTcb = none) (awake : kernel.state t ≠ .blocked)
    (returned : apiCall kernel call = some (outcome, result)) :
    RingsTrail t (kernel.prioBucket t) rings result := by
  obtain ⟨waits, waiting⟩ := holds.waits
  have same : result = kernel → RingsTrail t (kernel.prioBucket t) rings result := by
    rintro rfl
    exact RingsTrail.refl coherent.lists
  cases call with
  | lock m ticks =>
      simp only [apiCall, mutexLock, nobody] at returned
      exact same (Prod.mk.inj (Option.some.inj returned)).2.symm
  | unlock m =>
      simp only [apiCall, mutexUnlock, nobody, Option.map_some] at returned
      exact same (Prod.mk.inj (Option.some.inj returned)).2.symm
  | wait sem ticks =>
      simp only [apiCall, semaphoreWait, nobody] at returned
      exact same (Prod.mk.inj (Option.some.inj returned)).2.symm
  | post sem =>
      obtain ⟨posted, region, equal⟩ := Option.map_eq_some_iff.mp returned
      cases equal
      exact post_trail coherent waiting awake region
  | send q msg ticks =>
      simp only [apiCall, msgQueueSend, nobody] at returned
      exact same (Prod.mk.inj (Option.some.inj returned)).2.symm
  | recv q ticks =>
      simp only [apiCall, msgQueueRecv, nobody] at returned
      exact same (Prod.mk.inj (Option.some.inj returned)).2.symm
  | delay ticks =>
      simp only [apiCall, taskDelay, rtosBlockCurrent, nobody] at returned
      split at returned
      · exact same (Prod.mk.inj (Option.some.inj returned)).2.symm
      · exact same (Prod.mk.inj (Option.some.inj returned)).2.symm

end Calls

/-! ### What a step does to it -/

section Steps

variable {system after : System} {rings : Bucket → List Addr} {t : Addr} {action : Action}

theorem create_trail {p : Bucket} {tcb priority : Nat} {added : Kernel}
    (coherent : RingCoherent system.kernel rings)
    (registry : RegistryShape system.kernel.toCore) (listed : t ∈ system.kernel.taskRegistry)
    (fresh : tcb ∉ system.kernel.taskRegistry)
    (addition : schedulerAddTask (freshTask system.kernel tcb priority (prioBucket priority))
      (some tcb) = some (.ok, added)) : RingsTrail t p rings added := by
  have absent : ∀ bucket, tcb ∉ rings bucket := fun bucket member =>
    fresh ((coherent.shape.member bucket tcb).mp member).1
  have different : t ≠ tcb := ne_of_mem_of_not_mem listed fresh
  have lists : (freshTask system.kernel tcb priority (prioBucket priority)).RingsAre rings := by
    refine ⟨coherent.lists.family.congr ?_, coherent.lists.fresh⟩
    intro bucket item member
    apply Function.update_of_ne
    rintro rfl
    exact absent bucket member
  obtain ⟨again, additionAgain, _, addedLists⟩ :=
    schedulerAddTask_spec lists (coherent.length_le registry _) absent
      (Function.update_self _ _ _)
  cases addition.symm.trans additionAgain
  exact RingsTrail.appended addedLists different

theorem delete_trail {p : Bucket} {tcb : Addr} {detached removed : Kernel}
    (coherent : RingCoherent system.kernel rings)
    (registry : RegistryShape system.kernel.toCore)
    (detachment : detachIfBlocked system.kernel tcb = some detached)
    (removal : schedulerRemoveTask detached (some tcb) = some removed) :
    RingsTrail t p rings removed := by
  obtain ⟨reason, object, onMutex, fields, _⟩ := detachIfBlocked_core detachment
  obtain ⟨nextReady, readyHead, addCalls⟩ := detachIfBlocked_links detachment
  have detachedRings : RingCoherent detached rings := by
    apply coherent.congr nextReady readyHead addCalls
    all_goals rw [fields]
  have detachedRegistry : RegistryShape detached.toCore := by
    rw [fields]
    exact registry.congr rfl rfl rfl
  obtain ⟨again, removalAgain, _, lists⟩ :=
    @schedulerRemoveTask_spec detached rings tcb detachedRings.lists
      (detachedRings.length_le detachedRegistry _)
  cases removal.symm.trans removalAgain
  exact RingsTrail.erased lists

theorem tick_trail {result : Kernel} (coherent : RingCoherent system.kernel rings)
    (holds : Coherent system.kernel noWindow) (listed : t ∈ system.kernel.taskRegistry)
    (awake : system.kernel.state t ≠ .blocked)
    (tick : sysTickHandler system.kernel = some result) :
    RingsTrail t (system.kernel.prioBucket t) rings result := by
  obtain ⟨waits, waiting⟩ := holds.waits
  obtain ⟨again, grown, tickAgain, kept, added⟩ := sysTickHandler_rings coherent waiting
  cases tick.symm.trans tickAgain
  obtain ⟨new, isGrown⟩ := added (system.kernel.prioBucket t)
  refine ⟨grown, kept.lists, ?_⟩
  have inRing : t ∈ rings (system.kernel.prioBucket t) :=
    (coherent.shape.member _ t).mpr ⟨listed, rfl, awake⟩
  have distinct := (kept.lists.family.ring (system.kernel.prioBucket t)).distinct
  rw [← isGrown] at distinct ⊢
  apply Trails.append
  intro member
  exact (List.nodup_append.mp distinct).2.2 t inRing t member rfl

/-- In a step that is no switch nobody comes in front of a task that is not blocked. -/
theorem step_trail (holds : SystemCoherent system) (coherent : RingCoherent system.kernel rings)
    (bucket : UnlockKeepsBucket system action) (leaves : action.leavesCurrent = true)
    (listed : t ∈ system.kernel.taskRegistry) (awake : system.kernel.state t ≠ .blocked)
    (taken : step system action = some after) :
    RingsTrail t (system.kernel.prioBucket t) rings after.kernel := by
  cases step_moves taken with
  | stays => exact RingsTrail.refl coherent.lists
  | creates fresh addition =>
      have unregistered := (holds.toLiveRegistry.fresh fresh).2.2.1
      exact (create_trail coherent holds.coherent.registry listed unregistered addition).congr
        rfl rfl rfl
  | deletes _ _ _ detachment removal =>
      exact (delete_trail coherent holds.coherent.registry detachment removal).congr rfl rfl rfl
  | @calls call outcome result can returned =>
      cases isCurrent : system.kernel.currentTcb with
      | none => exact unstarted_trail holds.coherent coherent isCurrent awake returned
      | some self =>
          obtain ⟨notIdle, selfAwake⟩ := canCall_some can isCurrent
          rw [apiCall_eq isCurrent] at returned
          exact callPass_trail holds.coherent coherent isCurrent notIdle selfAwake
            (bucket self isCurrent) awake returned
  | yields => exact (RingsTrail.refl coherent.lists).congr rfl rfl rfl
  | ticks tick => exact tick_trail coherent holds.coherent listed awake tick
  | selects _ => cases leaves
  | dispatches _ _ => cases leaves

end Steps

/-! ### The turns -/

/-- The kernel with the turns the tasks have had, each with the bucket it was from. -/
structure TurnState where
  preempt : PreemptState
  turns : List (Bucket × Addr)

def turnOf (action : PreemptAction) (after : PreemptState) : List (Bucket × Addr) :=
  match action with
  | .other _ => []
  | _ =>
      (after.system.kernel.currentTcb.map fun sel =>
        (after.system.kernel.prioBucket sel, sel)).toList

def turnStep (s : TurnState) (action : PreemptAction) : Option TurnState :=
  (preemptStep s.preempt action).map fun after => ⟨after, s.turns ++ turnOf action after⟩

/-- The task is alive, not blocked, and in this bucket. -/
def Awake (t : Addr) (p : Bucket) (kernel : Kernel) : Prop :=
  t ∈ kernel.taskRegistry ∧ kernel.state t ≠ .blocked ∧ kernel.prioBucket t = p

instance (t : Addr) (p : Bucket) (kernel : Kernel) : Decidable (Awake t p kernel) :=
  inferInstanceAs (Decidable (_ ∧ _ ∧ _))

/-- The steps behind which the task is still awake. -/
def StaysAwake (t : Addr) (p : Bucket) (s : TurnState) (action : PreemptAction) : Prop :=
  PreemptAllowed s.preempt action ∧
    ∀ after ∈ preemptStep s.preempt action, Awake t p after.system.kernel

section Runs

variable {s after : TurnState} {start : PreemptState} {t : Addr} {p : Bucket} {budget : Nat}

/-- The task is in its ring, and has had its share of the turns. -/
structure TurnsFair (t : Addr) (p : Bucket) (budget : Nat) (s : TurnState) : Prop where
  prompt : Prompt s.preempt
  awake : Awake t p s.preempt.system.kernel
  fair : ∃ rings, RingCoherent s.preempt.system.kernel rings ∧ Fair p t budget rings s.turns
  urgent : ∀ turn ∈ s.turns, turn.1 ≤ p

theorem readyList_of_coherent {kernel : Kernel} {rings : Bucket → List Addr}
    (coherent : RingCoherent kernel rings) (registry : RegistryShape kernel.toCore) :
    kernel.readyList = rings := by
  apply readyList_eq coherent.lists
  intro bucket tcb member
  exact registry.bounded tcb ((coherent.shape.member bucket tcb).mp member).1

theorem TurnsFair.other {action : Action} (holds : TurnsFair t p budget s)
    (leaves : action.leavesCurrent = true) (bucket : UnlockKeepsBucket s.preempt.system action)
    {later : System} (taken : step s.preempt.system action = some later)
    (awake : Awake t p later.kernel) (prompt : Prompt (s.preempt.behind later)) :
    TurnsFair t p budget ⟨s.preempt.behind later, s.turns⟩ := by
  obtain ⟨rings, coherent, fair⟩ := holds.fair
  obtain ⟨changed, kept⟩ := prompt.system.coherent.rings
  have trail := step_trail holds.prompt.system coherent bucket leaves holds.awake.1
    holds.awake.2.1 taken
  rw [holds.awake.2.2] at trail
  have trails := trail.trails kept.lists
  have listed : t ∈ changed p := (kept.shape.member p t).mpr ⟨awake.1, awake.2.2, awake.2.1⟩
  refine ⟨prompt, awake, ⟨changed, kept, ?_⟩, holds.urgent⟩
  apply fair.shrink listed (kept.lists.family.ring p).distinct
  exact trails.ahead listed fair.distinct

theorem TurnsFair.switch (holds : TurnsFair t p budget s) {system later : System}
    (coherent : SystemCoherent system)
    (links : system.kernel.toLinks = s.preempt.system.kernel.toLinks)
    (addCalls : system.kernel.addCalls = s.preempt.system.kernel.addCalls)
    (selects : step system .getNext = some later) (awake : Awake t p later.kernel)
    (prompt : Prompt ⟨later, []⟩) :
    TurnsFair t p budget ⟨⟨later, []⟩, s.turns ++ turnOf .pendSv ⟨later, []⟩⟩ := by
  obtain ⟨rings, before, fair⟩ := holds.fair
  obtain ⟨same, ringed⟩ := coherent.coherent.rings
  have lists : system.kernel.RingsAre rings := by
    refine ⟨?_, ?_⟩
    · rw [links]
      exact before.lists.family
    · rw [addCalls]
      exact before.lists.fresh
  cases lists.unique ringed.lists
  obtain ⟨⟨sel, next⟩, returned, rfl⟩ := Option.map_eq_some_iff.mp selects
  obtain ⟨chosen, rest, result, again, _, _, first, lowest, kept⟩ := schedulerGetNext_rings ringed
  cases returned.symm.trans again
  obtain ⟨state, counter, fields⟩ := select_core system.kernel sel
  have core := (schedulerGetNext_onlyRings returned).core.trans fields
  have turn : turnOf .pendSv ⟨{ system with kernel := next }, []⟩ =
      [(system.kernel.prioBucket sel, sel)] := by
    have current : next.currentTcb = some sel := by rw [core]
    have bucket : next.prioBucket = system.kernel.prioBucket := by rw [core]
    simp only [turnOf, current, bucket, Option.map_some, Option.toList_some]
  have acts : Acts rings (.select (system.kernel.prioBucket sel) sel)
      (Function.update rings (system.kernel.prioBucket sel) (rest ++ [sel])) :=
    Acts.select first lowest
  refine ⟨prompt, awake, ⟨_, kept, ?_⟩, ?_⟩
  · rw [turn]
    exact fair.step acts trivial
  · rw [turn]
    intro had member
    rcases List.mem_append.mp member with earlier | last
    · exact holds.urgent had earlier
    · rw [List.mem_singleton.mp last]
      apply Fin.not_lt.mp
      intro above
      have listed := fair.listed
      rw [lowest p above] at listed
      exact List.not_mem_nil listed

theorem TurnsFair.step {action : PreemptAction} (holds : TurnsFair t p budget s)
    (allowed : StaysAwake t p s action) (taken : turnStep s action = some after) :
    TurnsFair t p budget after := by
  obtain ⟨permitted, stays⟩ := allowed
  obtain ⟨later, stepped, rfl⟩ := Option.map_eq_some_iff.mp taken
  have awake := stays later stepped
  have prompt := holds.prompt.step permitted stepped
  cases action with
  | other action =>
      simp only [preemptStep] at stepped
      split at stepped
      · rename_i leaves
        obtain ⟨system, plain, rfl⟩ := Option.map_eq_some_iff.mp stepped
        rw [turnOf, List.append_nil]
        exact holds.other leaves permitted.1 plain awake prompt
      · cases stepped
  | pendSv =>
      simp only [preemptStep] at stepped
      split at stepped
      · obtain ⟨system, selects, rfl⟩ := Option.map_eq_some_iff.mp stepped
        exact holds.switch holds.prompt.system.taken rfl rfl selects awake prompt
      · cases stepped
  | svc =>
      simp only [preemptStep] at stepped
      split at stepped
      · obtain ⟨system, selects, rfl⟩ := Option.map_eq_some_iff.mp stepped
        exact holds.switch holds.prompt.system rfl rfl selects awake prompt
      · cases stepped

theorem turnsFair_start {front back : List Addr}
    (booted : Reachable PreemptStarted preemptStep PreemptAllowed start)
    (place : start.system.kernel.readyList p = front ++ t :: back) :
    TurnsFair t p front.length ⟨start, []⟩ := by
  have prompt := Reachable.prompt booted
  obtain ⟨rings, coherent⟩ := prompt.system.coherent.rings
  rw [readyList_of_coherent coherent prompt.system.coherent.registry] at place
  have listed : t ∈ rings p := by
    rw [place]
    exact List.mem_append_right front List.mem_cons_self
  obtain ⟨member, bucket, awake⟩ := (coherent.shape.member p t).mp listed
  refine ⟨prompt, ⟨member, awake, bucket⟩, ⟨rings, coherent, ?_⟩, ?_⟩
  · exact fair_start place (coherent.lists.family.ring p).distinct
  · intro turn impossible
    cases impossible

/-- While a task is awake in its bucket, whatever the tasks call and whoever comes and
goes, no other task of the bucket has two turns between two of its own, no more tasks of
the bucket have turns before its first one than were in front of it, and every other turn
is that of a more urgent task. -/
theorem turns_in_whole_runs {front back : List Addr}
    (booted : Reachable PreemptStarted preemptStep PreemptAllowed start)
    (place : start.system.kernel.readyList p = front ++ t :: back)
    (reached : Reachable (fun s => s = ⟨start, []⟩) turnStep (StaysAwake t p) s) :
    (∀ earlier middle later, s.turns = earlier ++ (p, t) :: (middle ++ later) →
        (p, t) ∉ middle → ∀ other, middle.count (p, other) ≤ 1) ∧
      (∀ first later, s.turns = first ++ later → (p, t) ∉ first →
        first.countP (fun turn => decide (turn.1 = p)) ≤ front.length) ∧
      ∀ turn ∈ s.turns, turn.1 ≤ p := by
  have invariant : TurnsFair t p front.length s := by
    apply reached.invariant (TurnsFair t p front.length)
    · rintro _ rfl
      exact turnsFair_start booted place
    · intro before action after holds allowed taken
      exact holds.step allowed taken
  obtain ⟨_, _, ⟨rings, _, fair⟩, urgent⟩ := invariant
  exact ⟨fair.once, fair.waits, urgent⟩

def threeTasks : List PreemptAction :=
  [.other (.create (some 0) 100 256 (some 1) (some 0)),
    .other (.create (some 0) 100 256 (some 2) (some 0)),
    .other (.create (some 0) 100 256 (some 3) (some 0))]

def twoTurns : List PreemptAction :=
  [.svc, .other (.call (.delay 5)), .pendSv, .other .sysTick, .pendSv]

def staysAwakeCheck (t : Addr) (p : Bucket) (s : TurnState) (action : PreemptAction) : Bool :=
  preemptCheck s.preempt action &&
    (preemptStep s.preempt action).all fun after => decide (Awake t p after.system.kernel)

theorem staysAwake_of_check (s : TurnState) (action : PreemptAction)
    (checked : staysAwakeCheck t p s action = true) : StaysAwake t p s action := by
  obtain ⟨permitted, stays⟩ := Bool.and_eq_true_iff.mp checked
  refine ⟨preemptAllowed_of_check s.preempt action permitted, fun after taken => ?_⟩
  rw [Option.mem_def.mp taken] at stays
  exact of_decide_eq_true stays

theorem turns_of_three_tasks :
    ∃ s : TurnState, s.turns = [(3, 1), (3, 2), (3, 3)] ∧
      ∀ first later, s.turns = first ++ later → ((3 : Bucket), 3) ∉ first →
        first.countP (fun turn => decide (turn.1 = 3)) ≤ 2 := by
  obtain ⟨start, booted, found⟩ :=
    @exists_reachable_of_run PreemptState PreemptAction PreemptStarted preemptStep PreemptAllowed
      preemptCheck
      (fun s => decide (s.system.kernel.readyList 3 = [1, 2, 3]) &&
        (run turnStep (staysAwakeCheck 3 3) ⟨s, []⟩ twoTurns).any
          fun s : TurnState => decide (s.turns = [(3, 1), (3, 2), (3, 3)]))
      preemptAllowed_of_check threeTasks ⟨startedSystem, []⟩
      ⟨started_startedSystem, rfl⟩ (by decide +kernel)
  obtain ⟨place, ends⟩ := Bool.and_eq_true_iff.mp found
  obtain ⟨s, reached, turns⟩ :=
    @exists_reachable_of_run TurnState PreemptAction (fun s => s = ⟨start, []⟩) turnStep
      (StaysAwake 3 3) (staysAwakeCheck 3 3)
      (fun s => decide (s.turns = [(3, 1), (3, 2), (3, 3)]))
      staysAwake_of_check twoTurns ⟨start, []⟩ rfl ends
  have fair := @turns_in_whole_runs s start 3 3 [1, 2] [] booted (of_decide_eq_true place) reached
  exact ⟨s, of_decide_eq_true turns, fair.2.1⟩

end Runs

end MicrokernelRtos
