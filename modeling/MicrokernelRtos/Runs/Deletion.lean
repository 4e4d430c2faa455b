/-
What `task_delete` leaves behind.

The deleted task leaves its ring, the registry and the wait list it is blocked
on.  Nothing looks for the mutexes it owns, so that their owner fields keep
naming memory that goes back to the heap.  As long as no owner is deleted, every
owner is registered.
-/

import MicrokernelRtos.Runs.Atomic

namespace MicrokernelRtos

open Linked Transition

variable {kernel result : Kernel} {system after : System} {action : Action} {t : Addr}

/-- No structure of the kernel leads to the task. -/
structure NoReference (kernel : Kernel) (t : Addr) : Prop where
  ring : ∀ bucket, ¬ Reaches kernel.nextReady (kernel.readyHead bucket) t
  registry : t ∉ kernel.taskRegistry
  waitList : ∀ list, ¬ Reaches kernel.mutexWaitNext (kernel.waitHead list) t
  owner : ∀ m, (kernel.mutex m).owner ≠ some t

theorem Coherent.noReference (coherent : Coherent kernel noWindow)
    (gone : t ∉ kernel.taskRegistry) (ownsNone : OwnsNoMutex kernel t) : NoReference kernel t := by
  obtain ⟨⟨rings, rung⟩, waits, waiting⟩ := coherent
  refine ⟨?_, gone, ?_, ownsNone⟩
  · intro bucket reached
    have member := ((rung.lists.family.ring bucket).reaches_iff t).mp reached
    exact gone ((rung.shape.member bucket t).mp member).1
  · intro list reached
    have member := ((waiting.lists.queue list).reaches_iff t).mp reached
    exact gone ((waiting.shape.member list t).mp member).1

theorem taskDelete_mutex (deleted : taskDelete kernel (some t) = some (.ok, result)) :
    result.mutex = kernel.mutex := by
  rcases taskDelete_cases deleted with
    ⟨refused, _⟩ | ⟨task, detached, removed, _, _, _, _, detachment, removal, rfl⟩
  · exact absurd rfl refused
  · obtain ⟨reason, object, onMutex, fields, _⟩ := detachIfBlocked_core detachment
    have core := (schedulerRemoveTask_onlyRings removal).core.trans fields
    simp only [core]

theorem taskDelete_registry (coherent : Coherent kernel noWindow)
    (deleted : taskDelete kernel (some t) = some (.ok, result)) : t ∉ result.taskRegistry := by
  have distinct := coherent.registry.distinct
  rcases taskDelete_cases deleted with
    ⟨refused, _⟩ | ⟨task, detached, removed, isTask, _, _, _, detachment, removal, rfl⟩
  · exact absurd rfl refused
  · cases isTask
    obtain ⟨reason, object, onMutex, fields, _⟩ := detachIfBlocked_core detachment
    have core := (schedulerRemoveTask_onlyRings removal).core.trans fields
    have registry : removed.taskRegistry = kernel.taskRegistry := by rw [core]
    simp only [registry]
    exact distinct.not_mem_erase

theorem taskDelete_status {status : Status} (notIdle : some t ≠ kernel.idleTcb)
    (notCurrent : some t ≠ kernel.currentTcb)
    (returned : taskDelete kernel (some t) = some (status, result)) : status = .ok := by
  simp only [taskDelete, if_neg notIdle, if_neg notCurrent] at returned
  obtain ⟨detached, _, rest⟩ := Option.bind_eq_some_iff.mp returned
  obtain ⟨removed, _, equal⟩ := Option.map_eq_some_iff.mp rest
  cases equal
  rfl

/-! ### Owners -/

section Owners

variable {call : Call} {outcome : Outcome} {self owner : Addr} {m : Nat}

/-- The owners behind a step: the task that owned the mutex before, or a registered
one, which is then the first to own it only behind a lock. -/
def OwnerFrom (before : Kernel) (m : Nat) (owner : Addr) (locks : Prop) : Prop :=
  (before.mutex m).owner = some owner ∨
    owner ∈ before.taskRegistry ∧ ((before.mutex m).owner = none → locks)

theorem owned_of_update {mutex : Nat → Mutex} {target : Nat} {value : Mutex}
    (owned : (Function.update mutex target value m).owner = some owner) :
    (mutex m).owner = some owner ∨ m = target ∧ value.owner = some owner := by
  by_cases same : m = target
  · subst m
    rw [Function.update_self] at owned
    exact Or.inr ⟨rfl, owned⟩
  · rw [Function.update_of_ne same] at owned
    exact Or.inl owned

theorem callRegion_owner {waits : WaitId → List Addr}
    (waiting : WaitCoherent kernel waits noWindow) (isCurrent : kernel.currentTcb = some self)
    (awake : kernel.state self ≠ .blocked) (accepted : callRefused kernel self call = none)
    (returned : callRegion kernel self call = some (outcome, result))
    (owned : (result.mutex m).owner = some owner) :
    OwnerFrom kernel m owner (∃ ticks, call = .lock m ticks) := by
  have live := waiting.registry.current self isCurrent
  cases call with
  | lock target ticks =>
      rcases lockRegion_mutexes returned with ⟨_, _, _, leaves⟩ | ⟨_, _, mutexIs, _⟩ |
        ⟨_, _, _, mutexIs, _⟩
      · rw [leaves.mutex] at owned
        exact Or.inl owned
      · rw [mutexIs] at owned
        rcases owned_of_update owned with before | ⟨rfl, isSelf⟩
        · exact Or.inl before
        · cases isSelf
          exact Or.inr ⟨live, fun _ => ⟨ticks, rfl⟩⟩
      · rw [mutexIs] at owned
        exact Or.inl owned
  | unlock target =>
      have owns : ownsMutex kernel target self = true := by
        by_contra notOwner
        simp [callRefused, notOwner] at accepted
      simp only [ownsMutex, Bool.and_eq_true, decide_eq_true_eq] at owns
      obtain ⟨unlocked, region, equal⟩ := Option.map_eq_some_iff.mp returned
      cases equal
      have heirBlocked : ∀ heir, firstHighest kernel.priority (waits (.mutex target)) = some heir →
          kernel.state heir = .blocked :=
        fun heir chosen => waiting.mem_blocked (firstHighest_spec chosen).1
      rcases mutexUnlockRegion_waits waiting awake rfl heirBlocked region with
        ⟨_, _, core⟩ | ⟨heir, chosen, _, core⟩
      · have mutexIs : result.mutex = Function.update kernel.mutex target
            { locked := false, owner := none } := congrArg Core.mutex core
        rw [mutexIs] at owned
        rcases owned_of_update owned with before | ⟨_, nobody⟩
        · exact Or.inl before
        · cases nobody
      · have mutexIs : result.mutex = Function.update kernel.mutex target
            { locked := true, owner := some heir } := congrArg Core.mutex core
        rw [mutexIs] at owned
        rcases owned_of_update owned with before | ⟨rfl, isHeir⟩
        · exact Or.inl before
        · cases isHeir
          have member := (firstHighest_spec chosen).1
          refine Or.inr ⟨((waiting.shape.member _ _).mp member).1, fun nobody => ?_⟩
          rw [owns.2] at nobody
          cases nobody
  | _ =>
      have leaves := callRegion_leavesMutexes returned (fun _ _ isLock => by cases isLock)
        (fun _ isUnlock => by cases isUnlock)
      rw [leaves.mutex] at owned
      exact Or.inl owned

theorem apiCall_unstarted_mutex (nobody : kernel.currentTcb = none)
    (returned : apiCall kernel call = some (outcome, result)) : result.mutex = kernel.mutex := by
  cases call with
  | post sem =>
      have region : callRegion kernel 0 (.post sem) = some (outcome, result) := returned
      exact (callRegion_leavesMutexes region (fun _ _ isLock => by cases isLock)
        (fun _ isUnlock => by cases isUnlock)).mutex
  | lock target ticks =>
      simp only [apiCall, mutexLock, nobody] at returned
      cases returned
      rfl
  | unlock target =>
      simp only [apiCall, mutexUnlock, nobody, Option.map_some] at returned
      cases returned
      rfl
  | wait sem ticks =>
      simp only [apiCall, semaphoreWait, nobody] at returned
      cases returned
      rfl
  | send q msg ticks =>
      simp only [apiCall, msgQueueSend, nobody] at returned
      cases returned
      rfl
  | recv q ticks =>
      simp only [apiCall, msgQueueRecv, nobody] at returned
      cases returned
      rfl
  | delay ticks =>
      simp only [apiCall, taskDelay, rtosBlockCurrent, nobody] at returned
      split at returned
      · cases returned
        rfl
      · cases returned
        rfl

theorem apiCall_owner (coherent : Coherent kernel noWindow) (can : canCall kernel = true)
    (returned : apiCall kernel call = some (outcome, result))
    (owned : (result.mutex m).owner = some owner) :
    OwnerFrom kernel m owner (∃ ticks, call = .lock m ticks) := by
  cases isCurrent : kernel.currentTcb with
  | none =>
      rw [apiCall_unstarted_mutex isCurrent returned] at owned
      exact Or.inl owned
  | some self =>
      obtain ⟨_, awake⟩ := canCall_some can isCurrent
      obtain ⟨waits, waiting⟩ := coherent.waits
      rw [apiCall_eq isCurrent] at returned
      rcases callPass_cases isCurrent returned with
        ⟨_, _, rfl⟩ | ⟨accepted, ends, entered, region, ⟨_, _, _, rfl⟩ | ⟨_, block⟩⟩
      · exact Or.inl owned
      · exact callRegion_owner waiting isCurrent awake accepted region owned
      · have same := congrArg Core.mutex (blockRegion_onlyRings block).core
        rw [same] at owned
        exact callRegion_owner waiting isCurrent awake accepted region owned

theorem step_owner (holds : SystemCoherent system) (taken : step system action = some after)
    (owned : (after.kernel.mutex m).owner = some owner) :
    OwnerFrom system.kernel m owner (∃ ticks, action = .call (.lock m ticks)) := by
  have unchanged : after.kernel.mutex = system.kernel.mutex →
      OwnerFrom system.kernel m owner (∃ ticks, action = .call (.lock m ticks)) := by
    intro same
    rw [same] at owned
    exact Or.inl owned
  cases step_moves taken with
  | stays => exact unchanged rfl
  | creates fresh addition =>
      have core := (schedulerAddTask_onlyRings (Function.update_self _ _ _) addition).core
      have same := congrArg Core.mutex core
      exact unchanged same
  | deletes member notIdle notCurrent detachment removal =>
      obtain ⟨reason, object, onMutex, fields, _⟩ := detachIfBlocked_core detachment
      have core := (schedulerRemoveTask_onlyRings removal).core.trans fields
      have same := congrArg Core.mutex core
      exact unchanged same
  | calls can returned =>
      exact (apiCall_owner holds.coherent can returned owned).imp_right fun new =>
        ⟨new.1, fun nobody => (new.2 nobody).imp fun _ isLock => by rw [isLock]⟩
  | yields => exact unchanged rfl
  | ticks tick =>
      apply unchanged
      obtain ⟨woken, wakes, core⟩ := sysTickHandler_core tick
      rw [core, wakes.fields]
      rfl
  | @selects sel next returned =>
      obtain ⟨state, counter, fields⟩ := select_core system.kernel sel
      have core := (schedulerGetNext_onlyRings returned).core.trans fields
      have same := congrArg Core.mutex core
      exact unchanged same
  | @dispatches t member awake =>
      obtain ⟨state, counter, fields⟩ := select_core system.kernel t
      have same := congrArg Core.mutex fields
      exact unchanged same

/-- No mutex names memory that has gone back to the heap. -/
def OwnersListed (kernel : Kernel) : Prop :=
  ∀ m owner, (kernel.mutex m).owner = some owner → owner ∈ kernel.taskRegistry

theorem OwnersListed.step (listed : OwnersListed system.kernel) (holds : SystemCoherent system)
    (bucket : UnlockKeepsBucket system action) (spares : DeletesNoOwner system action)
    (taken : MicrokernelRtos.step system action = some after) : OwnersListed after.kernel := by
  intro m owner owned
  have origin := step_owner holds taken owned
  have before : owner ∈ system.kernel.taskRegistry := origin.elim (listed m owner) And.left
  by_cases leaves : action.leavesTasks = true
  · rw [(step_sameTasks holds bucket leaves taken).1.registry]
    exact before
  · cases step_moves taken with
    | stays => exact before
    | creates fresh addition =>
        have core := (schedulerAddTask_onlyRings (Function.update_self _ _ _) addition).core
        have registry := congrArg Core.taskRegistry core
        apply List.mem_append_left
        rw [registry]
        exact before
    | @deletes tcb _ _ member notIdle notCurrent detachment removal =>
        obtain ⟨reason, object, onMutex, fields, _⟩ := detachIfBlocked_core detachment
        have core := (schedulerRemoveTask_onlyRings removal).core.trans fields
        have stillOwned : (system.kernel.mutex m).owner = some owner := by
          rw [← congrArg Core.mutex core]
          exact owned
        have different : owner ≠ tcb := by
          rintro rfl
          exact spares m stillOwned
        rw [congrArg Core.taskRegistry core]
        exact (List.mem_erase_of_ne different).mpr before
    | calls _ _ => exact absurd rfl leaves
    | yields => exact absurd rfl leaves
    | ticks _ => exact absurd rfl leaves
    | selects _ => exact absurd rfl leaves
    | dispatches _ _ => exact absurd rfl leaves

theorem Started.unowned (started : Started system) (m : Nat) :
    (system.kernel.mutex m).owner = none := by
  obtain ⟨start, idle, initialised, _, core, _⟩ := started.1.spec
  rw [core]
  exact congrArg Mutex.owner (initialised.mutex_eq m)

theorem Started.ownersListed (started : Started system) : OwnersListed system.kernel := by
  intro m owner owned
  rw [started.unowned m] at owned
  cases owned

/-- As long as no owner of a mutex is deleted, the owners are registered tasks. -/
theorem ownersListed_of_reachable
    (reached : Reachable Started MicrokernelRtos.step
      (fun s a => UnlockKeepsBucket s a ∧ DeletesNoOwner s a) system) :
    SystemCoherent system ∧ OwnersListed system.kernel :=
  reached.invariant (fun s => SystemCoherent s ∧ OwnersListed s.kernel)
    (fun _ started => ⟨started.systemCoherent, started.ownersListed⟩)
    (fun _ _ _ holds permitted taken => ⟨step_keeps holds.1 permitted.1 taken,
      holds.2.step holds.1 permitted.1 permitted.2 taken⟩)

end Owners

/-! ### What a deletion leaves -/

/-- In every run in which the unlocks leave a RUNNING caller in its bucket and no
owner has been deleted so far, the deletion of a live task other than the current one
succeeds, and leaves no reference to it exactly when the task owned no mutex. -/
theorem delete_leaves_noReference_iff
    (reached : Reachable Started step (fun s a => UnlockKeepsBucket s a ∧ DeletesNoOwner s a)
      system)
    (live : t ∈ system.live)
    (notCurrent : some t ≠ system.kernel.currentTcb) :
    ∃ result, taskDelete system.kernel (some t) = some (.ok, result) ∧
      (NoReference result t ↔ OwnsNoMutex system.kernel t) := by
  have holds := Reachable.systemCoherent (fun _ _ permitted => permitted.1) reached
  obtain ⟨status, result, returned, coherent⟩ :=
    @taskDelete_keeps _ _ t holds.coherent fun _ _ => rfl
  have isOk := taskDelete_status (holds.idleApart t live) notCurrent returned
  subst isOk
  refine ⟨result, returned, ?_, ?_⟩
  · intro noReference
    have owners := noReference.owner
    rw [taskDelete_mutex returned] at owners
    exact owners
  · intro ownsNone
    refine coherent.noReference (taskDelete_registry holds.coherent returned) ?_
    unfold OwnsNoMutex
    rw [taskDelete_mutex returned]
    exact ownsNone

def preemptedOwner : List Action :=
  [.create (some 0) 100 256 (some 1) (some 0), .getNext, .call (.lock 0 0),
    .create (some 0) 40 256 (some 2) (some 0), .sysTick, .getNext]

theorem delete_waiter_leaves_noReference :
    ∃ system, Reachable Started step (fun s a => UnlockKeepsBucket s a ∧ DeletesNoOwner s a)
        system ∧ 1 ∈ system.live ∧ system.kernel.waitHead (.semaphore 0) = some 1 ∧
      ∃ result, taskDelete system.kernel (some 1) = some (.ok, result) ∧
        (NoReference result 1 ↔ OwnsNoMutex system.kernel 1) := by
  obtain ⟨final, reached, found⟩ :=
    @exists_reachable_of_run System Action Started step
      (fun s a => UnlockKeepsBucket s a ∧ DeletesNoOwner s a) orderlyCheck
      (fun s => decide (1 ∈ s.live ∧ s.kernel.waitHead (.semaphore 0) = some 1 ∧
        some 1 ≠ s.kernel.currentTcb))
      orderly_of_check
      [.create (some 0) 100 256 (some 1) (some 0), .getNext, .call (.lock 0 0),
        .call (.unlock 0), .call (.wait 0 0), .getNext]
      startedSystem started_startedSystem (by decide +kernel)
  obtain ⟨live, waits, notCurrent⟩ := of_decide_eq_true found
  exact ⟨final, reached, live, waits, delete_leaves_noReference_iff reached live notCurrent⟩

/-- The owner of a mutex is deleted, and the mutex still names it. -/
theorem delete_leaves_reference :
    ∃ system, Reachable Started step (fun _ _ => True) system ∧ 1 ∈ system.live ∧
      some 1 ≠ system.kernel.idleTcb ∧ some 1 ≠ system.kernel.currentTcb ∧
      ∃ result, taskDelete system.kernel (some 1) = some (.ok, result) ∧
        ¬ NoReference result 1 := by
  obtain ⟨final, reached, found⟩ :=
    @exists_reachable_of_run System Action Started step (fun _ _ => True) (fun _ _ => true)
      (fun s => decide (1 ∈ s.live ∧ some 1 ≠ s.kernel.idleTcb ∧ some 1 ≠ s.kernel.currentTcb ∧
          (s.kernel.mutex 0).owner = some 1) && (taskDelete s.kernel (some 1)).isSome)
      (fun _ _ _ => trivial) preemptedOwner startedSystem started_startedSystem
      (by decide +kernel)
  obtain ⟨facts, returns⟩ := Bool.and_eq_true_iff.mp found
  obtain ⟨live, notIdle, notCurrent, owner⟩ := of_decide_eq_true facts
  refine ⟨final, reached, live, notIdle, notCurrent, ?_⟩
  cases deleted : taskDelete final.kernel (some 1) with
  | none =>
      rw [deleted] at returns
      cases returns
  | some answer =>
      obtain ⟨status, result⟩ := answer
      have isOk := taskDelete_status notIdle notCurrent deleted
      subst isOk
      refine ⟨result, rfl, fun noReference => noReference.owner 0 ?_⟩
      rw [taskDelete_mutex deleted]
      exact owner

end MicrokernelRtos
