/-
What an operation of the kernel has written when it returns.

Nothing is assumed about the lists here.  A wakeup touches the block fields and
the state of the task it wakes; a tick is a sequence of wakeups, one for each
task that is due; a new task has every field written.
-/

import MicrokernelRtos.Task

namespace MicrokernelRtos

variable {kernel result : Kernel} {t : Addr} {now : Nat}

/-! ### Timeouts and detachment share one form -/

def unlinkBlocked (kernel : Kernel) (t : Addr) : Option Kernel :=
  match waitId (kernel.blockReason t) (kernel.blockObject t) with
  | some list => tcbUnlink kernel list t
  | none => some kernel

def timeoutFields (reason : BlockReason) (kernel : Kernel) (t : Addr) : Kernel :=
  match reason with
  | .none | .delay => kernel
  | .mutex =>
      { timeoutStatus kernel t with
        blockedOnMutex := Function.update kernel.blockedOnMutex t none }
  | .semaphore | .msgSend | .msgRecv => timeoutStatus kernel t

theorem timeoutFields_core (reason : BlockReason) (kernel : Kernel) (t : Addr) :
    ∃ status onMutex,
      (timeoutFields reason kernel t).toCore =
        { kernel.toCore with blockWakeStatus := status, blockedOnMutex := onMutex } ∧
      ∀ item, item ≠ t → status item = kernel.blockWakeStatus item ∧
        onMutex item = kernel.blockedOnMutex item := by
  refine ⟨(timeoutFields reason kernel t).blockWakeStatus,
    (timeoutFields reason kernel t).blockedOnMutex, ?_, ?_⟩
  · cases reason <;> rfl
  · intro item different
    cases reason <;> simp [timeoutFields, timeoutStatus, Function.update_of_ne different]

theorem timeoutFields_links (reason : BlockReason) (kernel : Kernel) (t : Addr) :
    (timeoutFields reason kernel t).toLinks = kernel.toLinks := by
  cases reason <;> rfl

theorem timeoutFields_addCalls (reason : BlockReason) (kernel : Kernel) (t : Addr) :
    (timeoutFields reason kernel t).addCalls = kernel.addCalls := by
  cases reason <;> rfl

theorem wakeIfDue_eq (due : isDue kernel now t = true) (blocked : kernel.blockReason t ≠ .none) :
    wakeIfDue kernel now t = (unlinkBlocked kernel t).bind fun unlinked =>
      makeReady (timeoutFields (kernel.blockReason t) unlinked t) t := by
  unfold wakeIfDue unlinkBlocked
  rw [if_pos due]
  cases reason : kernel.blockReason t with
  | none => exact absurd reason blocked
  | delay => rfl
  | mutex =>
      unfold mutexWakeTimeout
      cases kernel.blockObject t with
      | none => rfl
      | some m => rfl
  | semaphore =>
      unfold semaphoreWakeTimeout
      cases kernel.blockObject t with
      | none => rfl
      | some sem => rfl
  | msgSend =>
      unfold msgqueueWakeTimeout
      rw [reason]
      cases kernel.blockObject t with
      | none => rfl
      | some q => rfl
  | msgRecv =>
      unfold msgqueueWakeTimeout
      rw [reason]
      cases kernel.blockObject t with
      | none => rfl
      | some q => rfl

theorem wakeIfDue_of_not (idle : ¬ (isDue kernel now t = true ∧ kernel.blockReason t ≠ .none)) :
    wakeIfDue kernel now t = some kernel := by
  unfold wakeIfDue
  by_cases due : isDue kernel now t = true
  · have reason : kernel.blockReason t = .none :=
      not_not.mp fun blocked => idle ⟨due, blocked⟩
    rw [if_pos due, reason]
  · rw [if_neg due]

/-- What the detachment of a blocked task writes.  Its own link is cleared
unless its fields name no list. -/
def detachedFields (reason : BlockReason) (object : Option Nat) (kernel : Kernel) (t : Addr) :
    Kernel :=
  { kernel with
    blockReason := Function.update kernel.blockReason t .none
    blockObject := Function.update kernel.blockObject t none
    blockedOnMutex := Function.update kernel.blockedOnMutex t none
    mutexWaitNext :=
      if waitId reason object = none then kernel.mutexWaitNext
      else Function.update kernel.mutexWaitNext t none }

theorem detachBlockedTask_eq (kernel : Kernel) (t : Addr) :
    detachBlockedTask kernel t = (unlinkBlocked kernel t).map fun unlinked =>
      detachedFields (kernel.blockReason t) (kernel.blockObject t) unlinked t := by
  unfold detachBlockedTask unlinkBlocked
  cases reason : kernel.blockReason t with
  | none => rfl
  | delay => rfl
  | mutex =>
      cases kernel.blockObject t with
      | none => rfl
      | some m =>
          simp only [mutexDetachWaiter, Option.map_map, waitId]
          congr 1
          funext unlinked
          simp [detachedFields, waitId]
  | semaphore =>
      cases kernel.blockObject t with
      | none => rfl
      | some sem =>
          simp only [semaphoreDetachWaiter, Option.map_map, waitId]
          rfl
  | msgSend =>
      cases kernel.blockObject t with
      | none => rfl
      | some q =>
          simp only [msgqueueDetachWaiter, reason, Option.map_map, waitId]
          rfl
  | msgRecv =>
      cases kernel.blockObject t with
      | none => rfl
      | some q =>
          simp only [msgqueueDetachWaiter, reason, Option.map_map, waitId]
          rfl

theorem unlinkBlocked_onlyWaits (returned : unlinkBlocked kernel t = some result) :
    OnlyWaits kernel result := by
  unfold unlinkBlocked at returned
  split at returned
  · exact tcbUnlink_onlyWaits returned
  · cases returned
    exact OnlyWaits.refl kernel

def detachIfBlocked (kernel : Kernel) (t : Addr) : Option Kernel :=
  if kernel.state t = .blocked then detachBlockedTask kernel t else some kernel

theorem detachIfBlocked_core {detached : Kernel}
    (returned : detachIfBlocked kernel t = some detached) :
    ∃ reason object onMutex,
      detached.toCore = { kernel.toCore with
        blockReason := reason, blockObject := object, blockedOnMutex := onMutex } ∧
      ∀ item, item ≠ t → reason item = kernel.blockReason item ∧
        object item = kernel.blockObject item ∧ onMutex item = kernel.blockedOnMutex item := by
  unfold detachIfBlocked at returned
  split at returned
  · rw [detachBlockedTask_eq] at returned
    obtain ⟨unlinked, removal, rfl⟩ := Option.map_eq_some_iff.mp returned
    have kept := (unlinkBlocked_onlyWaits removal).core
    refine ⟨Function.update kernel.blockReason t .none, Function.update kernel.blockObject t none,
      Function.update kernel.blockedOnMutex t none, ?_, ?_⟩
    · rw [detachedFields, kept]
    · intro item different
      exact ⟨Function.update_of_ne different _ _, Function.update_of_ne different _ _,
        Function.update_of_ne different _ _⟩
  · cases returned
    exact ⟨_, _, _, rfl, fun item different => ⟨rfl, rfl, rfl⟩⟩

theorem detachIfBlocked_links {detached : Kernel}
    (returned : detachIfBlocked kernel t = some detached) :
    detached.nextReady = kernel.nextReady ∧ detached.readyHead = kernel.readyHead ∧
      detached.addCalls = kernel.addCalls := by
  unfold detachIfBlocked at returned
  split at returned
  · rw [detachBlockedTask_eq] at returned
    obtain ⟨unlinked, removal, rfl⟩ := Option.map_eq_some_iff.mp returned
    have frame := unlinkBlocked_onlyWaits removal
    exact ⟨frame.nextReady, frame.readyHead, frame.addCalls⟩
  · cases returned
    exact ⟨rfl, rfl, rfl⟩

/-! ### A tick -/

/-- Only fields that a wakeup writes differ, and only at the tasks woken. -/
structure Wakes (before after : Core) (woken : Addr → Prop) : Prop where
  fields : after = { before with
    state := after.state
    blockReason := after.blockReason
    blockObject := after.blockObject
    blockWakeStatus := after.blockWakeStatus
    blockedOnMutex := after.blockedOnMutex }
  state : ∀ item, ¬ woken item → after.state item = before.state item
  reason : ∀ item, ¬ woken item → after.blockReason item = before.blockReason item
  object : ∀ item, ¬ woken item → after.blockObject item = before.blockObject item
  status : ∀ item, ¬ woken item → after.blockWakeStatus item = before.blockWakeStatus item
  onMutex : ∀ item, ¬ woken item → after.blockedOnMutex item = before.blockedOnMutex item
  ready : ∀ item, woken item → after.state item = .ready

theorem Wakes.refl (core : Core) {woken : Addr → Prop} (nobody : ∀ item, ¬ woken item) :
    Wakes core core woken :=
  ⟨rfl, fun _ _ => rfl, fun _ _ => rfl, fun _ _ => rfl, fun _ _ => rfl, fun _ _ => rfl,
    fun item isWoken => absurd isWoken (nobody item)⟩

theorem Wakes.trans {first second third : Core} {early late : Addr → Prop}
    (left : Wakes first second early) (right : Wakes second third late) :
    Wakes first third fun item => early item ∨ late item := by
  constructor
  · have equal := right.fields
    rw [left.fields] at equal
    exact equal
  · intro item neither
    rw [right.state item fun isLate => neither (Or.inr isLate),
      left.state item fun isEarly => neither (Or.inl isEarly)]
  · intro item neither
    rw [right.reason item fun isLate => neither (Or.inr isLate),
      left.reason item fun isEarly => neither (Or.inl isEarly)]
  · intro item neither
    rw [right.object item fun isLate => neither (Or.inr isLate),
      left.object item fun isEarly => neither (Or.inl isEarly)]
  · intro item neither
    rw [right.status item fun isLate => neither (Or.inr isLate),
      left.status item fun isEarly => neither (Or.inl isEarly)]
  · intro item neither
    rw [right.onMutex item fun isLate => neither (Or.inr isLate),
      left.onMutex item fun isEarly => neither (Or.inl isEarly)]
  · intro item isWoken
    by_cases isLate : late item
    · exact right.ready item isLate
    · rw [right.state item isLate]
      exact left.ready item (isWoken.resolve_right isLate)

theorem Wakes.congr {before after : Core} {woken other : Addr → Prop}
    (wakes : Wakes before after woken) (same : ∀ item, woken item ↔ other item) :
    Wakes before after other := by
  have equal : woken = other := funext fun item => propext (same item)
  rw [← equal]
  exact wakes

/-- The task is woken when the loop of `rtos_wake_delayed` comes to it. -/
def Expires (kernel : Kernel) (now : Nat) (t : Addr) : Prop :=
  isDue kernel now t = true ∧ kernel.blockReason t ≠ .none

theorem Expires.blocked (expires : Expires kernel now t) : kernel.state t = .blocked := by
  have due := expires.1
  simp only [isDue, Bool.and_eq_true, decide_eq_true_eq] at due
  exact due.1.1.2

theorem wakeIfDue_wakes (returned : wakeIfDue kernel now t = some result) :
    Wakes kernel.toCore result.toCore fun item => item = t ∧ Expires kernel now t := by
  by_cases expires : Expires kernel now t
  · rw [wakeIfDue_eq expires.1 expires.2] at returned
    obtain ⟨unlinked, removal, ready⟩ := Option.bind_eq_some_iff.mp returned
    have core := (makeReady_onlyRings ready).core
    have kept := (unlinkBlocked_onlyWaits removal).core
    obtain ⟨status, onMutex, written, elsewhere⟩ :=
      timeoutFields_core (kernel.blockReason t) unlinked t
    rw [kept] at written elsewhere
    have fields : result.toCore = { kernel.toCore with
        state := Function.update kernel.state t .ready
        blockReason := Function.update kernel.blockReason t .none
        blockObject := Function.update kernel.blockObject t none
        blockWakeStatus := status
        blockedOnMutex := onMutex } := by
      rw [core, readyFields, written]
    have other : ∀ item, ¬ (item = t ∧ Expires kernel now t) → item ≠ t :=
      fun item neither same => neither ⟨same, expires⟩
    rw [fields]
    refine ⟨rfl, ?_, ?_, ?_, ?_, ?_, ?_⟩
    · exact fun item neither => Function.update_of_ne (other item neither) _ _
    · exact fun item neither => Function.update_of_ne (other item neither) _ _
    · exact fun item neither => Function.update_of_ne (other item neither) _ _
    · exact fun item neither => (elsewhere item (other item neither)).1
    · exact fun item neither => (elsewhere item (other item neither)).2
    · rintro item ⟨rfl, _⟩
      exact Function.update_self _ _ _
  · rw [wakeIfDue_of_not expires] at returned
    cases returned
    exact Wakes.refl _ fun item both => expires both.2

theorem Wakes.isDue_iff {after : Kernel} {woken : Addr → Prop}
    (wakes : Wakes kernel.toCore after.toCore woken) (item : Addr) :
    Expires after now item ↔ Expires kernel now item ∧ ¬ woken item := by
  by_cases isWoken : woken item
  · refine ⟨fun expires => ?_, fun both => absurd isWoken both.2⟩
    have clash := (wakes.ready item isWoken).symm.trans expires.blocked
    cases clash
  · have idle : after.idleTcb = kernel.idleTcb := by rw [wakes.fields]
    have wakeTime : after.wakeTime = kernel.wakeTime := by rw [wakes.fields]
    simp only [Expires, isDue, idle, wakeTime, wakes.state item isWoken,
      wakes.reason item isWoken, isWoken, not_false_iff, and_true]

theorem wakeLoop_wakes {items : List Addr} (returned : wakeLoop now items kernel = some result) :
    Wakes kernel.toCore result.toCore fun item => item ∈ items ∧ Expires kernel now item := by
  induction items generalizing kernel with
  | nil =>
      cases returned
      exact Wakes.refl _ fun item both => List.not_mem_nil both.1
  | cons first rest ih =>
      obtain ⟨middle, wake, later⟩ := Option.bind_eq_some_iff.mp returned
      have early := wakeIfDue_wakes wake
      refine (early.trans (ih later)).congr fun item => ?_
      rw [early.isDue_iff, List.mem_cons]
      by_cases same : item = first
      · subst item
        by_cases expires : Expires kernel now first <;> simp [expires]
      · simp [same]

/-- After the loop `SysTick_Handler` writes the slice counter and the PendSV bit. -/
theorem sysTickHandler_cases (returned : sysTickHandler kernel = some result) :
    ∃ woken counter, rtosWakeDelayed (rtosTickIncrement kernel) = some woken ∧
      result = { woken with timeSliceCounter := counter, pendSv := true } := by
  obtain ⟨woken, wake, rest⟩ := Option.bind_eq_some_iff.mp returned
  obtain ⟨sliced, slice, rfl⟩ := Option.map_eq_some_iff.mp rest
  refine ⟨woken, sliced.timeSliceCounter, wake, ?_⟩
  unfold schedulerTimeSliceTick at slice
  split at slice
  · cases slice
    rfl
  · split at slice
    · cases slice
      rfl
    · simp only at slice
      split at slice
      · cases slice
        rfl
      · split at slice
        · cases slice
          rfl
        · split at slice <;> · cases slice; rfl

theorem schedulerTimeSliceTick_returns (kernel : Kernel) :
    ∃ sliced, schedulerTimeSliceTick kernel = some sliced := by
  unfold schedulerTimeSliceTick
  split
  · exact ⟨_, rfl⟩
  · split
    · exact ⟨_, rfl⟩
    · simp only
      split
      · exact ⟨_, rfl⟩
      · split
        · exact ⟨_, rfl⟩
        · split <;> exact ⟨_, rfl⟩

/-! ### The regions of the calls -/

theorem applyPi_cases {m : Nat} (returned : applyPi kernel m = some result) :
    result = kernel ∨ ∃ owner hp, (kernel.mutex m).owner = some owner ∧
      minWaitPriorityValue kernel (.mutex m) = some hp ∧ hp < kernel.priority owner ∧
      changePriority kernel owner hp = some result := by
  unfold applyPi at returned
  split at returned
  · rename_i owner first ownerIs headIs
    split at returned
    · cases returned
    · rename_i hp minIs
      split at returned
      · rename_i below
        exact Or.inr ⟨owner, hp, ownerIs, minIs, below, returned⟩
      · cases returned
        exact Or.inl rfl
  · cases returned
    exact Or.inl rfl

theorem applyPi_core {m : Nat} (returned : applyPi kernel m = some result) :
    result.toCore = kernel.toCore ∨ ∃ owner hp, (kernel.mutex m).owner = some owner ∧
      minWaitPriorityValue kernel (.mutex m) = some hp ∧ hp < kernel.priority owner ∧
      result.toCore = (priorityFields kernel owner hp).toCore := by
  rcases applyPi_cases returned with rfl | ⟨owner, hp, isOwner, isMin, below, changed⟩
  · exact Or.inl rfl
  · exact Or.inr ⟨owner, hp, isOwner, isMin, below, (changePriority_onlyRings changed).core⟩

theorem lockJoin_core {m : Nat} {self : Addr} {queued : Kernel}
    (enqueued : tcbEnqueueTail (noteMutex kernel m self) (.mutex m) self = some queued)
    (boost : applyPi queued m = some result) :
    result.toCore = { (noteMutex kernel m self).toCore with
      prioBucket := result.prioBucket, priority := result.priority } := by
  have frame := (tcbEnqueueTail_onlyWaits enqueued).core
  rcases applyPi_core boost with core | ⟨owner, hp, _, _, _, core⟩
  · rw [core, frame]
  · rw [core, priorityFields, frame]

theorem applyPi_heads {m : Nat} (returned : applyPi kernel m = some result) :
    result.waitHead = kernel.waitHead := by
  rcases applyPi_cases returned with rfl | ⟨owner, hp, _, _, _, changed⟩
  · rfl
  · exact (changePriority_onlyRings changed).waitHead

/-- A lock finds the mutex its own, takes it free, or joins the wait list. -/
theorem mutexLockRegion_cases {m : Nat} {self : Addr} {outcome : Outcome}
    (returned : mutexLockRegion kernel m self = some (outcome, result)) :
    (outcome = .returns .ok [] ∧ (kernel.mutex m).locked = true ∧
        (kernel.mutex m).owner = some self ∧ result = kernel) ∨
      (outcome = .returns .ok [] ∧ (kernel.mutex m).locked = false ∧
        result = takeMutex kernel m self) ∨
      (outcome = .blocks ∧ (kernel.mutex m).locked = true ∧
        (kernel.mutex m).owner ≠ some self ∧
        ∃ queued, tcbEnqueueTail (noteMutex kernel m self) (.mutex m) self = some queued ∧
          applyPi queued m = some result) := by
  unfold mutexLockRegion at returned
  split at returned
  · rename_i mine
    cases returned
    exact Or.inl ⟨rfl, mine.1, mine.2, rfl⟩
  · rename_i notMine
    split at returned
    · rename_i free
      cases returned
      exact Or.inr (Or.inl ⟨rfl, free, rfl⟩)
    · rename_i taken
      have locked : (kernel.mutex m).locked = true := by simpa using taken
      obtain ⟨queued, enqueued, rest⟩ := Option.bind_eq_some_iff.mp returned
      obtain ⟨boosted, boost, equal⟩ := Option.map_eq_some_iff.mp rest
      cases equal
      exact Or.inr (Or.inr ⟨rfl, locked, fun owns => notMine ⟨locked, owns⟩, queued, enqueued,
        boost⟩)

theorem mutexUnlockRegion_cases {m : Nat} {self : Addr}
    (returned : mutexUnlockRegion kernel m self = some result) :
    ∃ restored next popped, restoreOwnerPriority kernel self = some restored ∧
      waitPopHighest restored (.mutex m) = some (next, popped) ∧
      ((next = none ∧ result = schedulerMarkReschedule (release popped m)) ∨
        ∃ heir woken, next = some heir ∧ makeReady (handOver popped m heir) heir = some woken ∧
          result = schedulerMarkReschedule woken) := by
  obtain ⟨restored, restore, rest⟩ := Option.bind_eq_some_iff.mp returned
  obtain ⟨⟨next, popped⟩, pop, final⟩ := Option.bind_eq_some_iff.mp rest
  refine ⟨restored, next, popped, restore, pop, ?_⟩
  cases next with
  | none =>
      cases final
      exact Or.inl ⟨rfl, rfl⟩
  | some heir =>
      obtain ⟨woken, wake, rfl⟩ := Option.map_eq_some_iff.mp final
      exact Or.inr ⟨heir, woken, rfl, wake, rfl⟩

theorem wakeHead_cases {list : WaitId} (returned : wakeHead kernel list = some result) :
    (kernel.waitHead list = none ∧ result = kernel) ∨
      ∃ first woken, kernel.waitHead list = some first ∧
        makeReady (tcbPopHead kernel list).2 first = some woken ∧
        result = schedulerMarkReschedule woken := by
  unfold wakeHead at returned
  cases headAt : kernel.waitHead list with
  | none =>
      have popped : tcbPopHead kernel list = (none, kernel) := by
        simp only [tcbPopHead, headAt]
      rw [popped] at returned
      cases returned
      exact Or.inl ⟨rfl, rfl⟩
  | some first =>
      have popped : (tcbPopHead kernel list).1 = some first := by
        simp only [tcbPopHead, headAt]
      simp only [popped] at returned
      obtain ⟨woken, wake, rfl⟩ := Option.map_eq_some_iff.mp returned
      exact Or.inr ⟨first, woken, rfl, wake, rfl⟩

theorem wakeHead_core {list : WaitId} (returned : wakeHead kernel list = some result) :
    result.toCore = kernel.toCore ∨ ∃ first, kernel.waitHead list = some first ∧
      result.toCore = (schedulerMarkReschedule (readyFields kernel first)).toCore := by
  rcases wakeHead_cases returned with ⟨_, rfl⟩ | ⟨first, woken, headAt, wake, rfl⟩
  · exact Or.inl rfl
  · refine Or.inr ⟨first, headAt, ?_⟩
    rw [schedulerMarkReschedule, (makeReady_onlyRings wake).core, readyFields,
      (tcbPopHead_onlyWaits kernel list).core]
    rfl

theorem semaphorePostRegion_eq (kernel : Kernel) (sem : Nat) :
    semaphorePostRegion kernel sem =
      if (kernel.semaphore sem).count ≥ (kernel.semaphore sem).maxCount then
        some (.errFull, kernel)
      else
        (wakeHead (setCount kernel sem ((kernel.semaphore sem).count + 1)) (.semaphore sem)).map
          fun woken => (.ok, schedulerMarkReschedule woken) := by
  unfold semaphorePostRegion wakeHead
  split
  · rfl
  · dsimp only
    cases tcbPopHead (setCount kernel sem ((kernel.semaphore sem).count + 1))
        (.semaphore sem) with
    | mk first popped =>
        cases first with
        | none => rfl
        | some first =>
            simp only [Option.map_map]
            rfl

/-! ### Selection -/

theorem schedulerGetNext_onlyRings {sel : Addr}
    (returned : schedulerGetNext kernel = some (sel, result)) :
    OnlyRings (dispatch (preemptCurrent kernel) sel) result := by
  simp only [schedulerGetNext] at returned
  split at returned
  · cases returned
    exact ⟨rfl, rfl, rfl, rfl⟩
  · split at returned
    · cases returned
      exact OnlyRings.refl _
    · cases returned

/-! ### New tasks and deleted ones -/

/-- The block of a new task, as it is handed to `scheduler_add_task`. -/
def freshTask (kernel : Kernel) (tcb : Addr) (priority : Nat) (bucket : Bucket) : Kernel :=
  { kernel with
    prioBucket := Function.update kernel.prioBucket tcb bucket
    priority := Function.update kernel.priority tcb priority
    state := Function.update kernel.state tcb .ready
    wakeTime := Function.update kernel.wakeTime tcb uint32Max
    basePriority := Function.update kernel.basePriority tcb priority
    blockedOnMutex := Function.update kernel.blockedOnMutex tcb none
    timeSliceCounter := Function.update kernel.timeSliceCounter tcb 0
    blockReason := Function.update kernel.blockReason tcb .none
    blockObject := Function.update kernel.blockObject tcb none
    blockWakeStatus := Function.update kernel.blockWakeStatus tcb .ok
    nextReady := Function.update kernel.nextReady tcb none
    mutexWaitNext := Function.update kernel.mutexWaitNext tcb none }

theorem installTask_eq (kernel : Kernel) (tcb taskFunc priority : Nat) (bucket : Bucket) :
    installTask kernel tcb (some taskFunc) priority bucket =
      (schedulerAddTask (freshTask kernel tcb priority bucket) (some tcb)).map fun added =>
        if added.1 ≠ .ok then (.errState, added.2) else (.ok, registryAdd added.2 tcb) := by
  simp [installTask, taskBuildCommon, clearTcb, freshTask]

theorem schedulerAddTask_status {tcb : Addr} {status : Status}
    (ready : kernel.state tcb = .ready)
    (returned : schedulerAddTask kernel (some tcb) = some (status, result)) : status = .ok := by
  simp only [schedulerAddTask, ready, reduceCtorEq, if_false] at returned
  obtain ⟨inserted, _, equal⟩ := Option.map_eq_some_iff.mp returned
  split at equal <;> · cases equal; rfl

/-- A task is created in full or the kernel is as it was. -/
theorem taskCreate_cases {taskFunc : Option Nat} {priority stackSize : Nat}
    {tcbBlock stackBlock : Option Addr} {handle : Option Addr}
    (returned : taskCreate kernel taskFunc priority stackSize tcbBlock stackBlock =
      some (handle, result)) :
    (handle = none ∧ result = kernel) ∨
      ∃ tcb added, tcbBlock = some tcb ∧ handle = some tcb ∧
        kernel.taskRegistry.length < kernel.config.maxTasks ∧
        schedulerAddTask (freshTask kernel tcb priority (prioBucket priority)) (some tcb) =
          some (.ok, added) ∧
        result = { added with taskRegistry := added.taskRegistry ++ [tcb] } := by
  unfold taskCreate at returned
  split at returned
  · cases returned
    exact Or.inl ⟨rfl, rfl⟩
  · rename_i accepted
    split at returned
    · cases returned
      exact Or.inl ⟨rfl, rfl⟩
    · rename_i room
      split at returned
      · rename_i tcb stack
        obtain ⟨⟨status, installed⟩, install, equal⟩ := Option.map_eq_some_iff.mp returned
        obtain ⟨function, isFunction⟩ : ∃ function, taskFunc = some function :=
          Option.ne_none_iff_exists'.mp fun missing => accepted (Or.inl missing)
        rw [isFunction, installTask_eq] at install
        obtain ⟨⟨addStatus, added⟩, addition, written⟩ := Option.map_eq_some_iff.mp install
        have ready : (freshTask kernel tcb priority (prioBucket priority)).state tcb = .ready :=
          Function.update_self _ _ _
        have isOk := schedulerAddTask_status ready addition
        subst isOk
        have frame := schedulerAddTask_onlyRings ready addition
        have registry : added.taskRegistry = kernel.taskRegistry := by
          rw [frame.core]
          rfl
        have config : added.config = kernel.config := by
          rw [frame.core]
          rfl
        have hasRoom : added.taskRegistry.length < added.config.maxTasks + 1 := by
          rw [registry, config]
          omega
        simp only [ne_eq, not_true, if_false, registryAdd, if_pos hasRoom] at written
        cases written
        cases equal
        exact Or.inr ⟨tcb, added, rfl, rfl, by omega, addition, rfl⟩
      · cases returned
        exact Or.inl ⟨rfl, rfl⟩

/-- A deletion that is not refused: the task is detached if it is blocked, and
leaves its ring and the registry. -/
theorem taskDelete_cases {tcb : Option Addr} {status : Status}
    (returned : taskDelete kernel tcb = some (status, result)) :
    (status ≠ .ok ∧ result = kernel) ∨
      ∃ t detached removed, tcb = some t ∧ status = .ok ∧ some t ≠ kernel.idleTcb ∧
        some t ≠ kernel.currentTcb ∧
        detachIfBlocked kernel t = some detached ∧
        schedulerRemoveTask detached (some t) = some removed ∧
        result = { removed with
          state := Function.update removed.state t .terminated
          taskRegistry := removed.taskRegistry.erase t } := by
  unfold taskDelete at returned
  split at returned
  · cases returned
    exact Or.inl ⟨by decide, rfl⟩
  · rename_i t
    split at returned
    · cases returned
      exact Or.inl ⟨by decide, rfl⟩
    · rename_i notIdle
      split at returned
      · cases returned
        exact Or.inl ⟨by decide, rfl⟩
      · rename_i notCurrent
        obtain ⟨detached, detachment, rest⟩ := Option.bind_eq_some_iff.mp returned
        obtain ⟨removed, removal, equal⟩ := Option.map_eq_some_iff.mp rest
        cases equal
        exact Or.inr ⟨t, detached, removed, rfl, rfl, notIdle, notCurrent, detachment, removal,
          rfl⟩

end MicrokernelRtos
