/-
Waiters beside an object that has units for them.

No wakeup is lost while nobody is deleted: a semaphore or a queue with waiters
has at least as many popped tasks that can run as it has units.  `task_delete`
passes no wakeup on, so that the deletion of a popped task can leave a waiter
asleep beside a unit.
-/

import MicrokernelRtos.Runs.Progress

namespace MicrokernelRtos

open Transition

variable {s first after : PassState} {action : PassAction} {self t : Addr} {call : Call}
variable {kernel result : Kernel} {sem initial maxCount : Nat}

/-- The task has been popped from the list, can run, and has not gone on since. -/
structure PassState.Pending (s : PassState) (list : WaitId) (t : Addr) : Prop where
  live : t ∈ s.live
  popped : s.popped t = some list
  awake : s.kernel.state t = .ready ∨ s.kernel.state t = .running

def PassState.AtLeast (s : PassState) (count : Nat) (list : WaitId) : Prop :=
  ∃ tasks : List Addr, tasks.Nodup ∧ count ≤ tasks.length ∧ ∀ t ∈ tasks, s.Pending list t

theorem PassCoherent.pending (holds : PassCoherent s) {list : WaitId}
    (isPopped : s.popped t = some list) : s.Pending list t := by
  obtain ⟨live, notBlocked, _⟩ := holds.popped t list isPopped
  obtain ⟨rings, rung⟩ := holds.system.coherent.rings
  refine ⟨live, isPopped, ?_⟩
  rcases rung.shape.live t ((holds.system.registry t).mpr (Or.inl live)) with
    ready | runs | blocked
  · exact Or.inl ready
  · exact Or.inr runs
  · exact absurd blocked notBlocked

theorem PassCoherent.atLeast (holds : PassCoherent s) (enough : Enough s) {list : WaitId}
    (nonempty : s.kernel.waitHead list ≠ none) :
    s.AtLeast (available s.kernel.toCore list) list := by
  refine ⟨s.live.filter fun t => decide (s.popped t = some list), ?_, ?_, ?_⟩
  · exact List.Nodup.filter _ holds.system.distinct
  · rw [← List.countP_eq_length_filter]
    exact enough list nonempty
  · intro t member
    exact holds.pending (of_decide_eq_true (List.mem_filter.mp member).2)

theorem PassState.AtLeast.exists {count : Nat} {list : WaitId} (tasks : s.AtLeast count list)
    (positive : 0 < count) : ∃ t, s.Pending list t := by
  obtain ⟨pending, _, long, each⟩ := tasks
  obtain ⟨t, member⟩ := List.exists_mem_of_length_pos (Nat.lt_of_lt_of_le positive long)
  exact ⟨t, each t member⟩

/-! ### With deletions -/

/-- Beside every unit with waiters some popped task has still to go on. -/
structure NoneStranded (s : PassState) : Prop where
  semaphore : ∀ sem, 0 < (s.kernel.semaphore sem).count →
    s.kernel.waitHead (.semaphore sem) ≠ none → ∃ t, s.Pending (.semaphore sem) t
  receiver : ∀ q, 0 < (s.kernel.msgQueue q).count →
    s.kernel.waitHead (.msgRecv q) ≠ none → ∃ t, s.Pending (.msgRecv q) t
  sender : ∀ q, (s.kernel.msgQueue q).count < (s.kernel.msgQueue q).depth →
    s.kernel.waitHead (.msgSend q) ≠ none → ∃ t, s.Pending (.msgSend q) t

/-- In every run in which no popped task is deleted that is needed. -/
theorem noneStranded_of_reachable (reached : Reachable PassStart passStep SparesWakeups s) :
    NoneStranded s := by
  obtain ⟨holds, enough⟩ := Reachable.enough reached
  refine ⟨?_, ?_, ?_⟩
  · intro sem positive nonempty
    exact (holds.atLeast enough nonempty).exists positive
  · intro q positive nonempty
    exact (holds.atLeast enough nonempty).exists positive
  · intro q room nonempty
    exact (holds.atLeast enough nonempty).exists (Nat.sub_pos_of_lt room)

def deleteSpareWaiter : List PassAction :=
  [.other (.create (some 0) 100 256 (some 1) (some 0)),
    .other (.create (some 0) 100 256 (some 2) (some 0)),
    .other (.create (some 0) 100 256 (some 3) (some 0)),
    .other (.create (some 0) 100 256 (some 4) (some 0)),
    .other .getNext, .call (.wait 0 0), .other .getNext, .call (.wait 0 0), .other .getNext,
    .call (.wait 0 0), .other .getNext, .call (.post 0), .call (.wait 0 0), .call (.post 0),
    .other (.delete 1)]

theorem noneStranded_after_spare_delete :
    ∃ s, Reachable PassStart passStep SparesWakeups s ∧ s.live = [4, 3, 2] ∧
      (s.kernel.semaphore 0).count = 1 ∧ s.kernel.waitHead (.semaphore 0) = some 3 ∧
      NoneStranded s := by
  obtain ⟨final, reached, found⟩ :=
    @exists_reachable_of_run PassState PassAction PassStart passStep SparesWakeups
      (fun s a => decide (SparesWakeups s a))
      (fun s => decide (s.live = [4, 3, 2]) && decide ((s.kernel.semaphore 0).count = 1) &&
        decide (s.kernel.waitHead (.semaphore 0) = some 3))
      (fun _ _ checked => of_decide_eq_true checked) deleteSpareWaiter startedPasses
      passStart_startedPasses (by decide +kernel)
  simp only [Bool.and_eq_true, decide_eq_true_eq] at found
  exact ⟨final, reached, found.1.1, found.1.2, found.2, noneStranded_of_reachable reached⟩

/-- Two tasks wait for a semaphore.  A third one posts, keeps running, and deletes
the one that it has popped. -/
def deletePoppedWaiter : List PassAction :=
  [.other (.create (some 0) 100 256 (some 1) (some 0)),
    .other (.create (some 0) 100 256 (some 2) (some 0)),
    .other (.create (some 0) 100 256 (some 3) (some 0)),
    .other .getNext, .call (.wait 0 0), .other .getNext, .call (.wait 0 0), .other .getNext,
    .call (.post 0), .other .getNext, .other (.delete 1)]

/-- The other waiter is asleep beside the unit, and nobody is on the way to it. -/
theorem noneStranded_fails :
    ∃ s, Reachable PassStart passStep (fun _ a => a.mutexFree = true) s ∧ ¬ NoneStranded s := by
  obtain ⟨final, reached, found⟩ :=
    @exists_reachable_of_run PassState PassAction PassStart passStep
      (fun _ a => a.mutexFree = true) (fun _ a => a.mutexFree)
      (fun s => decide ((s.kernel.semaphore 0).count = 1) &&
        decide (s.kernel.waitHead (.semaphore 0) = some 2) &&
        s.live.all fun t => decide (s.popped t = none))
      (fun _ _ checked => checked) deletePoppedWaiter startedPasses passStart_startedPasses
      (by decide +kernel)
  simp only [Bool.and_eq_true, decide_eq_true_eq, List.all_eq_true] at found
  obtain ⟨⟨one, waits⟩, nobody⟩ := found
  refine ⟨final, reached, fun holds => ?_⟩
  obtain ⟨t, pending⟩ := holds.semaphore 0 (by rw [one]; decide) (by rw [waits]; simp)
  have none := nobody t pending.live
  rw [pending.popped] at none
  cases none

/-! ### Without deletions -/

def DeletesNobody (action : PassAction) : Prop :=
  action.mutexFree = true ∧ action.deletes = none

instance (action : PassAction) : Decidable (DeletesNobody action) :=
  inferInstanceAs (Decidable (action.mutexFree = true ∧ action.deletes = none))

theorem DeletesNobody.spares (nobody : DeletesNobody action) : SparesWakeups s action := by
  refine ⟨nobody.1, fun tcb isDeleted => ?_⟩
  rw [nobody.2] at isDeleted
  cases isDeleted

def Event.waited (event : Event) (sem : Nat) : Bool :=
  match event.call, event.status with
  | .wait target _, .ok => decide (target = sem)
  | _, _ => false

def Event.posted (event : Event) (sem : Nat) : Bool :=
  match event.call, event.status with
  | .post target, .ok => decide (target = sem)
  | _, _ => false

/-- The count is what was there at the start and what the log says. -/
structure SemaphoreAccount (initial maxCount : Nat) (s : PassState) (sem : Nat) : Prop where
  limit : (s.kernel.semaphore sem).maxCount = maxCount
  account : (s.kernel.semaphore sem).count + s.log.countP (fun event => event.waited sem) =
    initial + s.log.countP (fun event => event.posted sem)
  bounded : (s.kernel.semaphore sem).count ≤ maxCount

theorem Event.counts_of_failed {event : Event} (failed : event.status ≠ .ok) (sem : Nat) :
    event.waited sem = false ∧ event.posted sem = false := by
  unfold Event.waited Event.posted
  constructor
  · split
    · rename_i isOk
      exact absurd isOk failed
    · rfl
  · split
    · rename_i isOk
      exact absurd isOk failed
    · rfl

theorem WakesFirst.semaphore_eq {before after : Kernel} {list : WaitId}
    (wakes : WakesFirst before list after) : after.semaphore = before.semaphore := by
  rcases wakes with ⟨_, core⟩ | ⟨first, _, core⟩
  · rw [core]
  · rw [core]
    rfl

/-- A pass changes a count by what it puts into the log. -/
theorem PassEffect.account {outcome : Outcome} (effect : PassEffect kernel self call outcome result)
    (sem : Nat) :
    (result.semaphore sem).maxCount = (kernel.semaphore sem).maxCount ∧
      ((kernel.semaphore sem).count ≤ (kernel.semaphore sem).maxCount →
        (result.semaphore sem).count ≤ (kernel.semaphore sem).maxCount) ∧
      (result.semaphore sem).count +
          (outcome.noted self call).countP (fun event => event.waited sem) =
        (kernel.semaphore sem).count +
          (outcome.noted self call).countP (fun event => event.posted sem) := by
  cases effect with
  | @fails status failed waitsNowhere none =>
      obtain ⟨waited, posted⟩ := @Event.counts_of_failed ⟨self, call, status, []⟩ failed sem
      simp [Outcome.noted, waited, posted]
  | blocks none exhausted core =>
      rw [core]
      simp [Outcome.noted, blockState, blockFields]
  | @takes target ticks isWait positive =>
      subst isWait
      by_cases same : sem = target
      · subst target
        simp [Outcome.noted, setCount, Event.waited, Event.posted]
        omega
      · simp [Outcome.noted, setCount, Event.waited, Event.posted, same, Ne.symm same]
  | @supplies list raised result out supplied wakes =>
      rw [wakes.semaphore_eq]
      rcases supplies_cases supplied with ⟨target, rfl, _, room, rfl⟩ |
        ⟨q, msg, ticks, rfl, _, _, rfl⟩ | ⟨q, ticks, rfl, _, _, rfl⟩
      · by_cases same : sem = target
        · subst target
          simp [Outcome.noted, setCount, Event.waited, Event.posted]
          omega
        · simp [Outcome.noted, setCount, Event.waited, Event.posted, same, Ne.symm same]
      · simp [Outcome.noted, setQueue, Event.waited, Event.posted]
      · simp [Outcome.noted, setQueue, Event.waited, Event.posted]

theorem PassEffect.semaphore_kept {outcome : Outcome}
    (effect : PassEffect kernel self call outcome result)
    (notOk : ∀ out, outcome ≠ .returns .ok out) : result.semaphore = kernel.semaphore := by
  cases effect with
  | fails failed waitsNowhere none => rfl
  | takes isWait positive => exact absurd rfl (notOk [])
  | @supplies list raised result out supplied wakes => exact absurd rfl (notOk out)
  | blocks none exhausted core =>
      rw [core]
      rfl

theorem passStep_account (holds : PassCoherent s) (free : action.mutexFree = true)
    (taken : passStep s action = some after) (account : SemaphoreAccount initial maxCount s sem) :
    SemaphoreAccount initial maxCount after sem := by
  rcases passStep_cases taken with ⟨choice, later, rfl, noCall, stepped, rfl⟩ |
    ⟨self, call, status, isCurrent, can, inCall, ends, rfl⟩ |
    ⟨self, call, outcome, result, isCurrent, can, course, returned, rfl⟩
  · have kept : later.kernel.semaphore = s.kernel.semaphore :=
      (step_onward holds.system noCall stepped).1.semaphore
    refine ⟨?_, ?_, ?_⟩
    · simp only [PassState.settle, kept]
      exact account.limit
    · simp only [PassState.settle, kept]
      exact account.account
    · simp only [PassState.settle, kept]
      exact account.bounded
  · refine ⟨account.limit, ?_, account.bounded⟩
    have uncounted : Event.waited ⟨self, call, status, []⟩ sem = false ∧
        Event.posted ⟨self, call, status, []⟩ sem = false := by
      rcases ends with ⟨rfl, _⟩ | ⟨ticks, rfl⟩
      · have failed : Status.errTimeout ≠ .ok := by decide
        exact Event.counts_of_failed failed sem
      · exact ⟨rfl, rfl⟩
    simp only [PassState.finish, List.countP_cons, uncounted.1, uncounted.2]
    exact account.account
  · have effect := callPass_effect isCurrent (holds.isPlain free course) returned
    obtain ⟨limit, bounded, change⟩ := effect.account sem
    refine ⟨limit.trans account.limit, ?_, ?_⟩
    · have before := account.account
      simp only [PassState.passed, List.countP_append]
      omega
    · have before := account.bounded
      rw [← account.limit] at before ⊢
      exact bounded before

theorem passStep_semaphore (holds : PassCoherent s) (free : action.mutexFree = true)
    (taken : passStep s action = some after)
    (notOk : ∀ event, after.log = event :: s.log → event.status ≠ .ok) :
    after.kernel.semaphore = s.kernel.semaphore := by
  rcases passStep_cases taken with ⟨choice, later, rfl, noCall, stepped, rfl⟩ |
    ⟨self, call, status, isCurrent, can, inCall, ends, rfl⟩ |
    ⟨self, call, outcome, result, isCurrent, can, course, returned, rfl⟩
  · exact (step_onward holds.system noCall stepped).1.semaphore
  · rfl
  · have effect := callPass_effect isCurrent (holds.isPlain free course) returned
    refine effect.semaphore_kept fun out isOk => ?_
    subst isOk
    exact notOk ⟨self, call, .ok, out⟩ rfl rfl

theorem PassStart.account (begins : PassStart first)
    (starts : first.kernel.semaphore sem = { count := initial, maxCount := maxCount }) :
    SemaphoreAccount initial maxCount first sem := by
  obtain ⟨start, idle, initialised, _, core, _⟩ := begins.booted.spec
  have kept : first.kernel.semaphore = start.semaphore := by
    rw [core]
    rfl
  have bounded : (start.semaphore sem).count ≤ (start.semaphore sem).maxCount := by
    obtain ⟨value, limit, isInit⟩ := initialised.semaphore sem
    unfold semaphoreInit at isInit
    dsimp only at isInit
    split at isInit
    · cases isInit
    · rename_i accepted
      have written := congrArg (fun pair => pair.2.semaphore sem) isInit
      simp only [Function.update_self] at written
      rw [← written]
      dsimp only
      omega
  rw [← kept, starts] at bounded
  refine ⟨by rw [starts], ?_, by rw [starts]; exact bounded⟩
  rw [starts, begins.log]
  rfl

/-- Every run from a start without deletions: the count, the calls that fail, and
the waiters. -/
theorem semaphoreProgress_of_reachable (begins : PassStart first)
    (starts : first.kernel.semaphore sem = { count := initial, maxCount := maxCount })
    (reached : Reachable (fun s => s = first) passStep (fun _ a => DeletesNobody a) s) :
    SemaphoreAccount initial maxCount s sem ∧
      (∀ action after, DeletesNobody action → passStep s action = some after →
        (∀ event, after.log = event :: s.log → event.status ≠ .ok) →
        after.kernel.semaphore = s.kernel.semaphore) ∧
      (s.kernel.waitHead (.semaphore sem) ≠ none →
        s.AtLeast (s.kernel.semaphore sem).count (.semaphore sem)) := by
  have holds : PassCoherent s ∧ Enough s ∧ SemaphoreAccount initial maxCount s sem := by
    refine Transition.Reachable.invariant
      (fun s => PassCoherent s ∧ Enough s ∧ SemaphoreAccount initial maxCount s sem) ?_ ?_ reached
    · rintro _ rfl
      exact ⟨begins.passCoherent, begins.enough, begins.account starts⟩
    · rintro before action after ⟨coherent, enough, account⟩ nobody taken
      obtain ⟨kept, keepsEnough⟩ := passStep_keeps coherent nobody.1 taken
      exact ⟨kept, keepsEnough (DeletesNobody.spares nobody).2 enough,
        passStep_account coherent nobody.1 taken account⟩
  obtain ⟨coherent, enough, account⟩ := holds
  refine ⟨account, ?_, coherent.atLeast enough⟩
  exact fun action after nobody => passStep_semaphore coherent nobody.1

def postTwice : List PassAction :=
  [.other (.create (some 0) 100 256 (some 1) (some 0)),
    .other (.create (some 0) 100 256 (some 2) (some 0)),
    .other (.create (some 0) 100 256 (some 3) (some 0)),
    .other .getNext, .call (.wait 0 0), .other .getNext, .call (.wait 0 9), .other .sysTick,
    .other .getNext, .call (.post 0), .call (.post 0)]

theorem semaphoreProgress_after_posts :
    ∃ s, Reachable (fun s => s = startedPasses) passStep (fun _ a => DeletesNobody a) s ∧
      s.kernel.waitHead (.semaphore 0) = some 2 ∧
      s.log.map Event.status = [.errFull, .ok] ∧ SemaphoreAccount 0 1 s 0 ∧
      s.AtLeast (s.kernel.semaphore 0).count (.semaphore 0) := by
  obtain ⟨final, reached, found⟩ :=
    @exists_reachable_of_run PassState PassAction (fun s => s = startedPasses) passStep
      (fun _ a => DeletesNobody a) (fun _ a => decide (DeletesNobody a))
      (fun s => decide (s.kernel.waitHead (.semaphore 0) = some 2) &&
        decide (s.log.map Event.status = [.errFull, .ok]))
      (fun _ _ checked => of_decide_eq_true checked) postTwice startedPasses rfl
      (by decide +kernel)
  simp only [Bool.and_eq_true, decide_eq_true_eq] at found
  obtain ⟨account, _, progress⟩ :=
    @semaphoreProgress_of_reachable _ _ 0 0 1 passStart_startedPasses rfl reached
  exact ⟨final, reached, found.1, found.2, account, progress (by rw [found.1]; simp)⟩

/-- Every run without deletions: a queue with waiters on either side. -/
theorem queueProgress_of_reachable
    (reached : Reachable PassStart passStep (fun _ a => DeletesNobody a) s) (q : Nat) :
    (s.kernel.waitHead (.msgRecv q) ≠ none →
        s.AtLeast (s.kernel.msgQueue q).count (.msgRecv q)) ∧
      (s.kernel.waitHead (.msgSend q) ≠ none →
        s.AtLeast ((s.kernel.msgQueue q).depth - (s.kernel.msgQueue q).count) (.msgSend q)) := by
  obtain ⟨coherent, enough⟩ :=
    Reachable.enough (reached.mono fun _ _ nobody => DeletesNobody.spares nobody)
  exact ⟨coherent.atLeast enough, coherent.atLeast enough⟩

def sendToTwo : List PassAction :=
  [.other (.create (some 0) 100 256 (some 1) (some 0)),
    .other (.create (some 0) 100 256 (some 2) (some 0)),
    .other (.create (some 0) 100 256 (some 3) (some 0)),
    .other .getNext, .call (.recv 0 0), .other .getNext, .call (.recv 0 9), .other .sysTick,
    .other .getNext, .call (.send 0 (fun _ => 7) 0)]

theorem queueProgress_after_send :
    ∃ s, Reachable PassStart passStep (fun _ a => DeletesNobody a) s ∧
      s.kernel.waitHead (.msgRecv 0) = some 2 ∧ (s.kernel.msgQueue 0).count = 1 ∧
      s.AtLeast 1 (.msgRecv 0) := by
  obtain ⟨final, reached, found⟩ :=
    @exists_reachable_of_run PassState PassAction PassStart passStep
      (fun _ a => DeletesNobody a) (fun _ a => decide (DeletesNobody a))
      (fun s => decide (s.kernel.waitHead (.msgRecv 0) = some 2) &&
        decide ((s.kernel.msgQueue 0).count = 1))
      (fun _ _ checked => of_decide_eq_true checked) sendToTwo startedPasses
      passStart_startedPasses (by decide +kernel)
  simp only [Bool.and_eq_true, decide_eq_true_eq] at found
  have progress := (queueProgress_of_reachable reached 0).1 (by rw [found.1]; simp)
  rw [found.2] at progress
  exact ⟨final, reached, found.1, found.2, progress⟩

end MicrokernelRtos
