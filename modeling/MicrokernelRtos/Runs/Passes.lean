/-
Runs in which every pass of the loop of a blocking call is one step.

A task that was made to wait goes on in its call when it runs again: it returns a
timeout, or makes another pass.  A post, a send and a receive pop the first
waiter of one list, and `popped` remembers the list until that task goes on.  The
log keeps what the calls returned, the newest first.
-/

import MicrokernelRtos.Runs.Atomic
import MicrokernelRtos.Runs.Wakeups

namespace MicrokernelRtos

open Linked Transition

structure PassState where
  kernel : Kernel
  live : List Addr
  /-- The call in whose wait loop a task is. -/
  calls : Addr → Option Call
  /-- The list from which a task was popped and has not gone on since. -/
  popped : Addr → Option WaitId
  log : List Event

inductive PassAction where
  | call (call : Call)
  | resume
  | other (action : Action)

def PassState.system (s : PassState) : System := ⟨s.kernel, s.live⟩

/-- The list from which a call pops the first waiter, and the kernel after the
write to the object. -/
def Call.supplies (kernel : Kernel) : Call → Option (WaitId × Kernel)
  | .post sem =>
      if (kernel.semaphore sem).count < (kernel.semaphore sem).maxCount then
        some (.semaphore sem, setCount kernel sem ((kernel.semaphore sem).count + 1))
      else none
  | .send q msg _ =>
      if (kernel.msgQueue q).count < (kernel.msgQueue q).depth then
        some (.msgRecv q, setQueue kernel q (pushMessage (kernel.msgQueue q) msg))
      else none
  | .recv q _ =>
      if 0 < (kernel.msgQueue q).count then
        some (.msgSend q, setQueue kernel q (popMessage (kernel.msgQueue q)))
      else none
  | _ => none

def notePopped (kernel : Kernel) (call : Call) (popped : Addr → Option WaitId) :
    Addr → Option WaitId :=
  match call.supplies kernel with
  | none => popped
  | some (list, _) =>
      match kernel.waitHead list with
      | none => popped
      | some first => Function.update popped first (some list)

def Outcome.noted (self : Addr) (call : Call) : Outcome → List Event
  | .returns status out => [⟨self, call, status, out⟩]
  | .blocks => []

def PassState.passed (s : PassState) (self : Addr) (call : Call) (outcome : Outcome)
    (kernel : Kernel) : PassState where
  kernel := kernel
  live := s.live
  calls := Function.update s.calls self (if outcome = .blocks then some call else none)
  popped := notePopped s.kernel call (Function.update s.popped self none)
  log := outcome.noted self call ++ s.log

def PassState.pass (s : PassState) (self : Addr) (call : Call) : Option PassState :=
  (callPass s.kernel self call).map fun passed => s.passed self call passed.1 passed.2

def PassState.finish (s : PassState) (self : Addr) (call : Call) (status : Status) : PassState :=
  { s with
    calls := Function.update s.calls self none
    popped := Function.update s.popped self none
    log := ⟨self, call, status, []⟩ :: s.log }

def PassState.resume (s : PassState) (self : Addr) (call : Call) : Option PassState :=
  match call with
  | .delay _ => some (s.finish self call (s.kernel.blockWakeStatus self))
  | _ =>
      if s.kernel.blockWakeStatus self = .errTimeout then some (s.finish self call .errTimeout)
      else s.pass self call

/-- The tasks that are gone are in no call. -/
def PassState.settle (s : PassState) (system : System) : PassState where
  kernel := system.kernel
  live := system.live
  calls := fun t => if t ∈ system.live then s.calls t else none
  popped := fun t => if t ∈ system.live then s.popped t else none
  log := s.log

def PassState.permits (s : PassState) : Action → Bool
  | .call _ => false
  | .sysTick => true
  | .getNext => true
  | .dispatch _ => true
  | _ =>
      match s.kernel.currentTcb with
      | none => true
      | some self => (s.calls self).isNone

def passStep (s : PassState) : PassAction → Option PassState
  | .call call =>
      s.kernel.currentTcb.bind fun self =>
        if canCall s.kernel && (s.calls self).isNone then s.pass self call else none
  | .resume =>
      s.kernel.currentTcb.bind fun self =>
        (s.calls self).bind fun call =>
          if canCall s.kernel then s.resume self call else none
  | .other action => if s.permits action then (step s.system action).map s.settle else none

/-- After `task_init`: no call has been made. -/
structure PassStart (s : PassState) : Prop where
  booted : Booted s.kernel
  live : s.live = []
  calls : s.calls = fun _ => none
  popped : s.popped = fun _ => none
  log : s.log = []

def startedPasses : PassState where
  kernel := bootedKernel
  live := []
  calls := fun _ => none
  popped := fun _ => none
  log := []

theorem passStart_startedPasses : PassStart startedPasses :=
  ⟨booted_bootedKernel, rfl, rfl, rfl, rfl⟩

variable {s after : PassState} {action : PassAction} {self t : Addr} {call : Call}
variable {system : System} {kernel result : Kernel} {list : WaitId}

theorem resume_cases (goesOn : s.resume self call = some after) :
    (∃ status, (status = .errTimeout ∧ s.kernel.blockWakeStatus self = .errTimeout ∨
        ∃ ticks, call = .delay ticks) ∧ after = s.finish self call status) ∨
      ∃ outcome result, callPass s.kernel self call = some (outcome, result) ∧
        after = s.passed self call outcome result := by
  by_cases isDelay : ∃ ticks, call = .delay ticks
  · obtain ⟨ticks, rfl⟩ := isDelay
    cases goesOn
    exact Or.inl ⟨_, Or.inr ⟨ticks, rfl⟩, rfl⟩
  · have again : (if s.kernel.blockWakeStatus self = .errTimeout then
        some (s.finish self call .errTimeout) else s.pass self call) = some after := by
      cases call with
      | delay ticks => exact absurd ⟨ticks, rfl⟩ isDelay
      | _ => exact goesOn
    split at again
    · rename_i expired
      cases again
      exact Or.inl ⟨_, Or.inl ⟨rfl, expired⟩, rfl⟩
    · obtain ⟨⟨outcome, result⟩, returned, rfl⟩ := Option.map_eq_some_iff.mp again
      exact Or.inr ⟨outcome, result, returned, rfl⟩

theorem passStep_cases (taken : passStep s action = some after) :
    (∃ choice system, action = .other choice ∧ (∀ call, choice ≠ .call call) ∧
      step s.system choice = some system ∧ after = s.settle system) ∨
    (∃ self call status, s.kernel.currentTcb = some self ∧ canCall s.kernel = true ∧
      s.calls self = some call ∧
      (status = .errTimeout ∧ s.kernel.blockWakeStatus self = .errTimeout ∨
        ∃ ticks, call = .delay ticks) ∧
      after = s.finish self call status) ∨
    (∃ self call outcome result, s.kernel.currentTcb = some self ∧ canCall s.kernel = true ∧
      (action = .call call ∧ s.calls self = none ∨ action = .resume ∧ s.calls self = some call) ∧
      callPass s.kernel self call = some (outcome, result) ∧
      after = s.passed self call outcome result) := by
  cases action with
  | other choice =>
      simp only [passStep] at taken
      split at taken
      · rename_i permitted
        obtain ⟨system, stepped, rfl⟩ := Option.map_eq_some_iff.mp taken
        refine Or.inl ⟨choice, system, rfl, ?_, stepped, rfl⟩
        rintro call rfl
        cases permitted
      · cases taken
  | call call =>
      obtain ⟨self, isCurrent, made⟩ := Option.bind_eq_some_iff.mp taken
      split at made
      · rename_i guards
        rw [Bool.and_eq_true, Option.isNone_iff_eq_none] at guards
        obtain ⟨⟨outcome, result⟩, returned, rfl⟩ := Option.map_eq_some_iff.mp made
        exact Or.inr (Or.inr ⟨self, call, outcome, result, isCurrent, guards.1,
          Or.inl ⟨rfl, guards.2⟩, returned, rfl⟩)
      · cases made
  | resume =>
      obtain ⟨self, isCurrent, inside⟩ := Option.bind_eq_some_iff.mp taken
      obtain ⟨call, inCall, goesOn⟩ := Option.bind_eq_some_iff.mp inside
      split at goesOn
      · rename_i can
        rcases resume_cases goesOn with ⟨status, why, rfl⟩ | ⟨outcome, result, returned, rfl⟩
        · exact Or.inr (Or.inl ⟨self, call, status, isCurrent, can, inCall, why, rfl⟩)
        · exact Or.inr (Or.inr ⟨self, call, outcome, result, isCurrent, can,
            Or.inr ⟨rfl, inCall⟩, returned, rfl⟩)
      · cases goesOn

/-! ### What a pass does -/

def Call.isMutex : Call → Bool
  | .lock _ _ => true
  | .unlock _ => true
  | _ => false

/-- How many of the waiters of a list could go on at once. -/
def available (core : Core) : WaitId → Nat
  | .mutex _ => 0
  | .semaphore sem => (core.semaphore sem).count
  | .msgSend q => (core.msgQueue q).depth - (core.msgQueue q).count
  | .msgRecv q => (core.msgQueue q).count

def WakesFirst (before : Kernel) (list : WaitId) (after : Kernel) : Prop :=
  (before.waitHead list = none ∧
      after.toCore = { before.toCore with pendSv := after.pendSv }) ∨
    ∃ first, before.waitHead list = some first ∧
      after.toCore = { (readyFields before first).toCore with pendSv := after.pendSv }

theorem wakeHead_wakesFirst (pendSv : Bool) (returned : wakeHead kernel list = some result) :
    WakesFirst kernel list { result with pendSv := pendSv } := by
  rcases wakeHead_cases returned with ⟨empty, rfl⟩ | ⟨first, woken, headAt, wake, rfl⟩
  · exact Or.inl ⟨empty, rfl⟩
  · refine Or.inr ⟨first, headAt, ?_⟩
    simp only [schedulerMarkReschedule]
    rw [(makeReady_onlyRings wake).core, readyFields, (tcbPopHead_onlyWaits kernel list).core]
    rfl

theorem rtosBlockCurrent_core {queued : Kernel} {outcome : Outcome}
    (isCurrent : queued.currentTcb = some self)
    (returned : rtosBlockCurrent queued call.timeoutTicks call.reason call.object =
      some (outcome, result)) :
    outcome = .blocks ∧ result.toCore =
      { (blockState (blockFields queued self call.reason call.object) self
          call.timeoutTicks).toCore with pendSv := true } := by
  unfold rtosBlockCurrent at returned
  rw [isCurrent] at returned
  obtain ⟨blocked, region, equal⟩ := Option.map_eq_some_iff.mp returned
  cases equal
  exact ⟨rfl, (blockRegion_onlyRings region).core⟩

/-- A pass of a call that uses no mutex fails and changes nothing, takes a unit of
a semaphore, supplies the waiters of a list, or blocks the caller. -/
inductive PassEffect (kernel : Kernel) (self : Addr) (call : Call) : Outcome → Kernel → Prop where
  | fails {status : Status} (failed : status ≠ .ok) (waitsNowhere : call.list = Option.none)
      (none : call.supplies kernel = none) :
      PassEffect kernel self call (.returns status []) kernel
  | takes {sem ticks : Nat} (isWait : call = .wait sem ticks)
      (positive : 0 < (kernel.semaphore sem).count) :
      PassEffect kernel self call (.returns .ok [])
        (setCount kernel sem ((kernel.semaphore sem).count - 1))
  | supplies {list : WaitId} {raised result : Kernel} {out : List UInt8}
      (supplied : call.supplies kernel = some (list, raised))
      (wakes : WakesFirst raised list result) :
      PassEffect kernel self call (.returns .ok out) result
  | blocks {result : Kernel} (none : call.supplies kernel = none)
      (exhausted : ∀ list, call.list = some list → available kernel.toCore list = 0)
      (core : result.toCore =
        { (blockState (blockFields kernel self call.reason call.object) self
            call.timeoutTicks).toCore with pendSv := true }) :
      PassEffect kernel self call .blocks result

/-- The courses that a pass of such a call can take through its region, with the list
operations on the way. -/
inductive PassCourse (kernel : Kernel) (self : Addr) (call : Call) : Outcome → Kernel → Prop where
  | fails {status : Status} (failed : status ≠ .ok) (waitsNowhere : call.list = Option.none)
      (none : call.supplies kernel = none) :
      PassCourse kernel self call (.returns status []) kernel
  | takes {sem ticks : Nat} (isWait : call = .wait sem ticks)
      (positive : 0 < (kernel.semaphore sem).count) :
      PassCourse kernel self call (.returns .ok [])
        (setCount kernel sem ((kernel.semaphore sem).count - 1))
  | supplies {list : WaitId} {raised woken : Kernel} {out : List UInt8} {pendSv : Bool}
      (supplied : call.supplies kernel = some (list, raised))
      (wake : wakeHead raised list = some woken) :
      PassCourse kernel self call (.returns .ok out) { woken with pendSv := pendSv }
  | joins {list : WaitId} {queued result : Kernel} (isList : call.list = some list)
      (none : call.supplies kernel = none) (exhausted : available kernel.toCore list = 0)
      (enqueued : tcbEnqueueTail kernel list self = some queued)
      (blocked : rtosBlockCurrent queued call.timeoutTicks call.reason call.object =
        some (.blocks, result)) : PassCourse kernel self call .blocks result
  | delays {ticks : Nat} {result : Kernel} (isDelay : call = .delay ticks)
      (blocked : rtosBlockCurrent kernel call.timeoutTicks call.reason call.object =
        some (.blocks, result)) : PassCourse kernel self call .blocks result

theorem enqueue_course {outcome : Outcome} (isCurrent : kernel.currentTcb = some self)
    (isList : call.list = some list) (none : call.supplies kernel = none)
    (exhausted : available kernel.toCore list = 0)
    (returned : blockingPass ((tcbEnqueueTail kernel list self).map fun queued =>
        (.blocks, queued)) call.timeoutTicks call.reason call.object = some (outcome, result)) :
    PassCourse kernel self call outcome result := by
  obtain ⟨⟨reached, queued⟩, entered, rest⟩ := Option.bind_eq_some_iff.mp returned
  obtain ⟨joined, enqueued, equal⟩ := Option.map_eq_some_iff.mp entered
  cases equal
  have current : queued.currentTcb = some self := by
    rw [(tcbEnqueueTail_onlyWaits enqueued).core]
    exact isCurrent
  obtain ⟨rfl, _⟩ := rtosBlockCurrent_core current rest
  exact .joins isList none exhausted enqueued rest

theorem callPass_course {outcome : Outcome} (isCurrent : kernel.currentTcb = some self)
    (plain : call.isMutex = false)
    (returned : callPass kernel self call = some (outcome, result)) :
    PassCourse kernel self call outcome result := by
  cases call with
  | lock m ticks => cases plain
  | unlock m => cases plain
  | wait sem ticks =>
      simp only [callPass, callRefused, callRegion, semaphoreWaitRegion] at returned
      split at returned
      · rename_i positive
        cases returned
        exact .takes rfl positive
      · rename_i zero
        have empty : available kernel.toCore (.semaphore sem) = 0 :=
          Nat.le_zero.mp (Nat.le_of_not_gt zero)
        exact enqueue_course isCurrent rfl rfl empty returned
  | post sem =>
      simp only [callPass, callRefused, callRegion, semaphorePostRegion_eq, blockingPass]
        at returned
      split at returned
      · rename_i full
        cases returned
        have failed : Status.errFull ≠ .ok := by decide
        refine .fails failed rfl ?_
        simp only [Call.supplies, if_neg (Nat.not_lt.mpr full)]
      · rename_i room
        obtain ⟨entered, region, equal⟩ := Option.bind_eq_some_iff.mp returned
        obtain ⟨posted, wake, rfl⟩ := Option.map_eq_some_iff.mp region
        obtain ⟨woken, popped, rfl⟩ := Option.map_eq_some_iff.mp wake
        cases equal
        refine @PassCourse.supplies kernel self _ (.semaphore sem)
          (setCount kernel sem ((kernel.semaphore sem).count + 1)) woken [] true ?_ popped
        simp only [Call.supplies, if_pos (Nat.lt_of_not_le room)]
  | send q msg ticks =>
      simp only [callPass, callRefused, callRegion, msgQueueSendRegion] at returned
      split at returned
      · rename_i room
        obtain ⟨entered, region, equal⟩ := Option.bind_eq_some_iff.mp returned
        obtain ⟨woken, popped, rfl⟩ := Option.map_eq_some_iff.mp region
        cases equal
        refine @PassCourse.supplies kernel self _ (.msgRecv q)
          (setQueue kernel q (pushMessage (kernel.msgQueue q) msg)) woken _ woken.pendSv ?_ popped
        simp only [Call.supplies, if_pos room]
      · rename_i full
        have none : (Call.send q msg ticks).supplies kernel = none := by
          simp only [Call.supplies, if_neg full]
        have empty : available kernel.toCore (.msgSend q) = 0 :=
          Nat.sub_eq_zero_of_le (Nat.le_of_not_lt full)
        exact enqueue_course isCurrent rfl none empty returned
  | recv q ticks =>
      simp only [callPass, callRefused, callRegion, msgQueueRecvRegion] at returned
      split at returned
      · rename_i positive
        obtain ⟨entered, region, equal⟩ := Option.bind_eq_some_iff.mp returned
        obtain ⟨woken, popped, rfl⟩ := Option.map_eq_some_iff.mp region
        cases equal
        refine @PassCourse.supplies kernel self _ (.msgSend q)
          (setQueue kernel q (popMessage (kernel.msgQueue q))) woken _ woken.pendSv ?_ popped
        simp only [Call.supplies, if_pos positive]
      · rename_i zero
        have none : (Call.recv q ticks).supplies kernel = none := by
          simp only [Call.supplies, if_neg zero]
        have empty : available kernel.toCore (.msgRecv q) = 0 :=
          Nat.le_zero.mp (Nat.le_of_not_gt zero)
        exact enqueue_course isCurrent rfl none empty returned
  | delay ticks =>
      simp only [callPass, callRefused] at returned
      split at returned
      · rename_i status refused
        split at refused
        · cases refused
          cases returned
          exact .fails (by decide) rfl rfl
        · cases refused
      · obtain ⟨rfl, _⟩ := @rtosBlockCurrent_core self (.delay ticks) _ _ _ isCurrent returned
        exact .delays rfl returned

theorem callPass_effect {outcome : Outcome} (isCurrent : kernel.currentTcb = some self)
    (plain : call.isMutex = false)
    (returned : callPass kernel self call = some (outcome, result)) :
    PassEffect kernel self call outcome result := by
  cases callPass_course isCurrent plain returned with
  | fails failed waitsNowhere none => exact .fails failed waitsNowhere none
  | takes isWait positive => exact .takes isWait positive
  | supplies supplied wake => exact .supplies supplied (wakeHead_wakesFirst _ wake)
  | @joins list queued _ isList none exhausted enqueued blocked =>
      have same := (tcbEnqueueTail_onlyWaits enqueued).core
      have current : queued.currentTcb = some self := by
        rw [same]
        exact isCurrent
      refine .blocks none ?_ ?_
      · intro other isOther
        rw [isList] at isOther
        cases isOther
        exact exhausted
      · rw [(rtosBlockCurrent_core current blocked).2]
        simp only [blockState, blockFields, rtosGetTick, same]
  | delays isDelay blocked =>
      subst isDelay
      refine .blocks rfl ?_ (rtosBlockCurrent_core isCurrent blocked).2
      intro list isList
      cases isList

/-- A post, a send and a receive supply a list where they do not fail or block. -/
theorem supplies_cases {raised : Kernel} (supplied : call.supplies kernel = some (list, raised)) :
    (∃ sem, call = .post sem ∧ list = .semaphore sem ∧
      (kernel.semaphore sem).count < (kernel.semaphore sem).maxCount ∧
      raised = setCount kernel sem ((kernel.semaphore sem).count + 1)) ∨
    (∃ q msg ticks, call = .send q msg ticks ∧ list = .msgRecv q ∧
      (kernel.msgQueue q).count < (kernel.msgQueue q).depth ∧
      raised = setQueue kernel q (pushMessage (kernel.msgQueue q) msg)) ∨
    ∃ q ticks, call = .recv q ticks ∧ list = .msgSend q ∧ 0 < (kernel.msgQueue q).count ∧
      raised = setQueue kernel q (popMessage (kernel.msgQueue q)) := by
  cases call with
  | lock m ticks => cases supplied
  | unlock m => cases supplied
  | wait sem ticks => cases supplied
  | delay ticks => cases supplied
  | post sem =>
      simp only [Call.supplies] at supplied
      split at supplied
      · rename_i room
        cases supplied
        exact Or.inl ⟨sem, rfl, rfl, room, rfl⟩
      · cases supplied
  | send q msg ticks =>
      simp only [Call.supplies] at supplied
      split at supplied
      · rename_i room
        cases supplied
        exact Or.inr (Or.inl ⟨q, msg, ticks, rfl, rfl, room, rfl⟩)
      · cases supplied
  | recv q ticks =>
      simp only [Call.supplies] at supplied
      split at supplied
      · rename_i positive
        cases supplied
        exact Or.inr (Or.inr ⟨q, ticks, rfl, rfl, positive, rfl⟩)
      · cases supplied

theorem supplies_frame {raised : Kernel} (supplied : call.supplies kernel = some (list, raised)) :
    ∃ semaphore msgQueue,
      raised = { kernel with semaphore := semaphore, msgQueue := msgQueue } := by
  rcases supplies_cases supplied with ⟨sem, _, _, _, rfl⟩ | ⟨q, msg, ticks, _, _, _, rfl⟩ |
    ⟨q, ticks, _, _, _, rfl⟩
  · exact ⟨_, _, rfl⟩
  · exact ⟨_, _, rfl⟩
  · exact ⟨_, _, rfl⟩

theorem WakesFirst.unmoved {before after : Kernel} (wakes : WakesFirst before list after)
    (headBlocked : ∀ first, before.waitHead list = some first → before.state first = .blocked)
    (t : Addr) : Unmoved before.toCore after.toCore t := by
  rcases wakes with ⟨_, core⟩ | ⟨first, headAt, core⟩
  · rw [core]
    exact ⟨id, fun _ => ⟨rfl, rfl, rfl⟩⟩
  · rw [core]
    have quiet : Quiet before.toCore
        { (readyFields before first).toCore with pendSv := after.pendSv } :=
      Quiet.ready (headBlocked first headAt) rfl rfl rfl rfl rfl rfl rfl rfl
    exact quiet.unmoved t

/-- A pass moves the caller only, and only if it blocks. -/
theorem PassEffect.unmoved {outcome : Outcome} (effect : PassEffect kernel self call outcome result)
    (headBlocked : ∀ list first, kernel.waitHead list = some first →
      kernel.state first = .blocked)
    (elsewhere : outcome ≠ .blocks ∨ t ≠ self) : Unmoved kernel.toCore result.toCore t := by
  cases effect with
  | fails failed waitsNowhere none => exact ⟨id, fun _ => ⟨rfl, rfl, rfl⟩⟩
  | takes isWait positive => exact ⟨id, fun _ => ⟨rfl, rfl, rfl⟩⟩
  | @supplies list raised result out supplied wakes =>
      obtain ⟨semaphore, msgQueue, rfl⟩ := supplies_frame supplied
      have moved := wakes.unmoved (headBlocked list) t
      exact ⟨moved.asleep, moved.fields⟩
  | blocks none exhausted core =>
      have different : t ≠ self := elsewhere.resolve_left fun notBlocks => notBlocks rfl
      rw [core]
      refine ⟨?_, fun _ => ?_⟩
      · simp [blockState, blockFields, different]
      · simp [blockState, blockFields, different]

theorem notePopped_cases {popped : Addr → Option WaitId}
    (isPopped : notePopped kernel call popped t = some list) :
    popped t = some list ∨
      ∃ raised, call.supplies kernel = some (list, raised) ∧ kernel.waitHead list = some t := by
  unfold notePopped at isPopped
  cases supplied : call.supplies kernel with
  | none =>
      rw [supplied] at isPopped
      exact Or.inl isPopped
  | some supply =>
      obtain ⟨other, raised⟩ := supply
      simp only [supplied] at isPopped
      cases headAt : kernel.waitHead other with
      | none =>
          rw [headAt] at isPopped
          exact Or.inl isPopped
      | some first =>
          simp only [headAt] at isPopped
          by_cases same : t = first
          · subst t
            rw [Function.update_self] at isPopped
            cases isPopped
            exact Or.inr ⟨raised, rfl, headAt⟩
          · rw [Function.update_of_ne same] at isPopped
            exact Or.inl isPopped

theorem PassEffect.first_ready {outcome : Outcome} {first : Addr} {raised : Kernel}
    (effect : PassEffect kernel self call outcome result)
    (supplied : call.supplies kernel = some (list, raised))
    (headAt : kernel.waitHead list = some first) :
    result.state first = .ready ∧
      result.blockWakeStatus first = kernel.blockWakeStatus first := by
  cases effect with
  | fails failed waitsNowhere none =>
      rw [none] at supplied
      cases supplied
  | takes isWait positive =>
      subst isWait
      cases supplied
  | blocks none exhausted core =>
      rw [none] at supplied
      cases supplied
  | @supplies other again result out otherSupplied wakes =>
      rw [otherSupplied] at supplied
      cases supplied
      obtain ⟨semaphore, msgQueue, rfl⟩ := supplies_frame otherSupplied
      rcases wakes with ⟨empty, _⟩ | ⟨head, isHead, core⟩
      · have clash : kernel.waitHead list = none := empty
        rw [headAt] at clash
        cases clash
      · have same : kernel.waitHead list = some head := isHead
        rw [headAt] at same
        cases same
        rw [core]
        exact ⟨by simp [readyFields], rfl⟩

/-! ### Who waits -/

def Sleeps (core : Core) (t : Addr) (list : WaitId) : Prop :=
  core.state t = .blocked ∧ waitId (core.blockReason t) (core.blockObject t) = some list

theorem SystemCoherent.mem_iff (holds : SystemCoherent system) {waits : WaitId → List Addr}
    (waiting : WaitCoherent system.kernel waits noWindow) (list : WaitId) (t : Addr) :
    t ∈ waits list ↔ t ∈ system.live ∧ Sleeps system.kernel.toCore t list := by
  obtain ⟨rings, rung⟩ := holds.coherent.rings
  rw [waiting.shape.member, holds.registry]
  simp only [WaitsOn, noWindow, reduceCtorEq, or_false]
  constructor
  · rintro ⟨live | isIdle, sleeps⟩
    · exact ⟨live, sleeps⟩
    · obtain ⟨idle, _, idleIs, awake, _⟩ := rung.shape.idle
      rw [idleIs] at isIdle
      cases isIdle
      exact absurd sleeps.1 awake
  · exact fun inside => ⟨Or.inl inside.1, inside.2⟩

theorem SystemCoherent.sleepers (holds : SystemCoherent system) :
    ∃ waits, system.kernel.WaitsAre waits ∧
      ∀ list t, t ∈ waits list ↔ t ∈ system.live ∧ Sleeps system.kernel.toCore t list := by
  obtain ⟨waits, waiting⟩ := holds.coherent.waits
  exact ⟨waits, waiting.lists, holds.mem_iff waiting⟩

theorem SystemCoherent.head_sleeps (holds : SystemCoherent system) {first : Addr}
    (headAt : system.kernel.waitHead list = some first) :
    first ∈ system.live ∧ Sleeps system.kernel.toCore first list := by
  obtain ⟨waits, lists, member⟩ := holds.sleepers
  rw [(lists.queue list).head_eq] at headAt
  exact (member list first).mp (List.mem_of_head? headAt)

theorem SystemCoherent.waitHead_ne_none_iff (holds : SystemCoherent system) :
    system.kernel.waitHead list ≠ none ↔ ∃ t ∈ system.live, Sleeps system.kernel.toCore t list := by
  constructor
  · intro nonempty
    obtain ⟨first, headAt⟩ := Option.ne_none_iff_exists'.mp nonempty
    exact ⟨first, holds.head_sleeps headAt⟩
  · rintro ⟨t, inside⟩
    obtain ⟨waits, lists, member⟩ := holds.sleepers
    rw [Ne, lists.head_eq_none_iff]
    exact List.ne_nil_of_mem ((member list t).mpr inside)

theorem Unmoved.sleeps {before after : Core} (unmoved : Unmoved before after t)
    (sleeps : Sleeps after t list) : Sleeps before t list := by
  obtain ⟨blocked, waits⟩ := sleeps
  obtain ⟨reason, object, _⟩ := unmoved.fields (Or.inl blocked)
  rw [reason, object] at waits
  exact ⟨unmoved.asleep blocked, waits⟩

theorem Unmoved.awake {before after : Core} (unmoved : Unmoved before after t)
    (awake : before.state t ≠ .blocked) :
    after.state t ≠ .blocked ∧ after.blockWakeStatus t = before.blockWakeStatus t :=
  ⟨fun blocked => awake (unmoved.asleep blocked), (unmoved.fields (Or.inr awake)).2.2⟩

/-! ### The steps that are no pass -/

/-- A step that leaves the objects alone, blocks nobody and gives a new task the
state READY. -/
structure Onward (before after : System) : Prop where
  semaphore : after.kernel.semaphore = before.kernel.semaphore
  msgQueue : after.kernel.msgQueue = before.kernel.msgQueue
  task : ∀ t ∈ after.live,
    t ∈ before.live ∧ Unmoved before.kernel.toCore after.kernel.toCore t ∨
      t ∉ before.live ∧ after.kernel.state t = .ready

theorem Onward.refl (system : System) : Onward system system :=
  ⟨rfl, rfl, fun t live => Or.inl ⟨live, (Quiet.refl _).unmoved t⟩⟩

theorem create_onward {tcb priority : Nat} {added : Kernel} (new : tcb ∉ system.live)
    (addition : schedulerAddTask (freshTask system.kernel tcb priority (prioBucket priority))
      (some tcb) = some (.ok, added)) :
    Onward system { kernel := { added with taskRegistry := added.taskRegistry ++ [tcb] }
                    live := tcb :: system.live } := by
  have core := (schedulerAddTask_onlyRings (Function.update_self _ _ _) addition).core
  refine ⟨by rw [core]; rfl, by rw [core]; rfl, fun t member => ?_⟩
  rw [core]
  by_cases isNew : t = tcb
  · subst t
    exact Or.inr ⟨new, by simp [freshTask]⟩
  · have old : t ∈ system.live := (List.mem_cons.mp member).resolve_left isNew
    refine Or.inl ⟨old, ?_, fun _ => ?_⟩
    · simp [freshTask, isNew]
    · simp [freshTask, isNew]

theorem delete_onward {tcb : Addr} {detached removed : Kernel} (distinct : system.live.Nodup)
    (detachment : detachIfBlocked system.kernel tcb = some detached)
    (removal : schedulerRemoveTask detached (some tcb) = some removed) :
    Onward system { kernel := { removed with
                      state := Function.update removed.state tcb .terminated
                      taskRegistry := removed.taskRegistry.erase tcb }
                    live := system.live.erase tcb } := by
  obtain ⟨reason, object, onMutex, fields, elsewhere⟩ := detachIfBlocked_core detachment
  have core := (schedulerRemoveTask_onlyRings removal).core.trans fields
  refine ⟨by rw [core], by rw [core], fun t member => ?_⟩
  rw [distinct.mem_erase_iff] at member
  rw [core]
  refine Or.inl ⟨member.2, ?_, fun _ => ?_⟩
  · simp [member.1]
  · exact ⟨(elsewhere t member.1).1, (elsewhere t member.1).2.1, rfl⟩

theorem select_onward {sel : Addr} (awake : system.kernel.state sel ≠ .blocked)
    (core : kernel.toCore = (dispatch (preemptCurrent system.kernel) sel).toCore) :
    Onward system { system with kernel := kernel } := by
  obtain ⟨state, counter, fields⟩ := select_core system.kernel sel
  refine ⟨by rw [core, fields], by rw [core, fields], fun t live => Or.inl ⟨live, ?_⟩⟩
  rw [core]
  exact select_unmoved awake t

theorem tick_onward (ticked : sysTickHandler system.kernel = some kernel) :
    Onward system { system with kernel := kernel } := by
  have quiet := sysTickHandler_quiet ticked
  obtain ⟨woken, wakes, core⟩ := sysTickHandler_core ticked
  refine ⟨?_, ?_, fun t live => Or.inl ⟨live, quiet.unmoved t⟩⟩
  · rw [core, wakes.fields]
    rfl
  · rw [core, wakes.fields]
    rfl

/-- The tasks after a step that is no pass: as before, one more, or one less. -/
theorem step_onward {choice : Action} {later : System} (holds : SystemCoherent system)
    (noCall : ∀ call, choice ≠ .call call) (taken : step system choice = some later) :
    Onward system later ∧
      (later.live = system.live ∨ (∃ tcb, tcb ∉ system.live ∧ later.live = tcb :: system.live) ∨
        ∃ tcb, choice = .delete tcb ∧ later.live = system.live.erase tcb) := by
  cases step_moves taken with
  | stays => exact ⟨Onward.refl system, Or.inl rfl⟩
  | creates fresh addition =>
      have new := (holds.toLiveRegistry.fresh fresh).1
      exact ⟨create_onward new addition, Or.inr (Or.inl ⟨_, new, rfl⟩)⟩
  | deletes member notIdle notCurrent detachment removal =>
      exact ⟨delete_onward holds.distinct detachment removal, Or.inr (Or.inr ⟨_, rfl, rfl⟩)⟩
  | calls can returned => exact absurd rfl (noCall _)
  | yields =>
      exact ⟨⟨rfl, rfl, fun t live => Or.inl ⟨live, id, fun _ => ⟨rfl, rfl, rfl⟩⟩⟩, Or.inl rfl⟩
  | ticks tick => exact ⟨tick_onward tick, Or.inl rfl⟩
  | selects returned =>
      exact ⟨select_onward (holds.selected returned).2.1 (schedulerGetNext_onlyRings returned).core,
        Or.inl rfl⟩
  | dispatches member awake => exact ⟨select_onward awake rfl, Or.inl rfl⟩

/-! ### What a call leaves alone -/

def CallWrites (before after : Core) : Prop :=
  after = { before with
    prioBucket := after.prioBucket
    priority := after.priority
    state := after.state
    wakeTime := after.wakeTime
    blockedOnMutex := after.blockedOnMutex
    blockReason := after.blockReason
    blockObject := after.blockObject
    blockWakeStatus := after.blockWakeStatus
    pendSv := after.pendSv
    mutex := after.mutex
    semaphore := after.semaphore
    msgQueue := after.msgQueue }

theorem RegionWrites.callWrites {before after : Core} (writes : RegionWrites before after) :
    CallWrites before after := by
  unfold CallWrites
  rw [writes.fields]

theorem apiCall_writes {outcome : Outcome}
    (returned : apiCall kernel call = some (outcome, result)) :
    CallWrites kernel.toCore result.toCore := by
  cases isCurrent : kernel.currentTcb with
  | none =>
      cases call with
      | lock m ticks =>
          simp only [apiCall, mutexLock, isCurrent] at returned
          cases returned
          rfl
      | unlock m =>
          simp only [apiCall, mutexUnlock, isCurrent, Option.map_some] at returned
          cases returned
          rfl
      | wait sem ticks =>
          simp only [apiCall, semaphoreWait, isCurrent] at returned
          cases returned
          rfl
      | post sem =>
          have writes : RegionWrites kernel.toCore result.toCore :=
            @callRegion_writes kernel result 0 (.post sem) outcome returned
          exact writes.callWrites
      | send q msg ticks =>
          simp only [apiCall, msgQueueSend, isCurrent] at returned
          cases returned
          rfl
      | recv q ticks =>
          simp only [apiCall, msgQueueRecv, isCurrent] at returned
          cases returned
          rfl
      | delay ticks =>
          simp only [apiCall, taskDelay, rtosBlockCurrent, isCurrent] at returned
          split at returned
          · cases returned
            rfl
          · cases returned
            rfl
  | some caller =>
      rw [apiCall_eq isCurrent] at returned
      unfold callPass at returned
      split at returned
      · cases returned
        rfl
      · obtain ⟨⟨early, entered⟩, region, onward⟩ := Option.bind_eq_some_iff.mp returned
        have writes := (callRegion_writes region).callWrites
        cases early with
        | returns status out =>
            cases onward
            exact writes
        | blocks =>
            have current : entered.currentTcb = some caller := by
              rw [writes]
              exact isCurrent
            obtain ⟨_, core⟩ := rtosBlockCurrent_core current onward
            unfold CallWrites
            rw [core]
            simp only [blockState, blockFields]
            rw [writes]

theorem apiCall_current {outcome : Outcome}
    (returned : apiCall kernel call = some (outcome, result)) :
    result.currentTcb = kernel.currentTcb := by
  rw [apiCall_writes returned]

def Action.leavesCurrent : Action → Bool
  | .getNext => false
  | .dispatch _ => false
  | _ => true

theorem step_current {system after : System} {action : Action}
    (leaves : action.leavesCurrent = true) (taken : step system action = some after) :
    after.kernel.currentTcb = system.kernel.currentTcb := by
  cases step_moves taken with
  | stays => rfl
  | creates _ addition =>
      have frame := schedulerAddTask_onlyRings (Function.update_self _ _ _) addition
      simp only
      rw [frame.core]
      rfl
  | deletes _ _ _ detachment removal =>
      obtain ⟨reason, object, onMutex, fields, _⟩ := detachIfBlocked_core detachment
      have core := (schedulerRemoveTask_onlyRings removal).core.trans fields
      simp only
      rw [core]
  | calls _ returned => exact apiCall_current returned
  | yields => rfl
  | ticks tick => exact (sysTickHandler_quiet tick).current
  | selects _ => cases leaves
  | dispatches _ _ => cases leaves

end MicrokernelRtos
