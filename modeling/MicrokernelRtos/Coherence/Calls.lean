/-
The calls, the tick and the scheduler keep the kernel coherent.

A call that wakes a waiter has to find it BLOCKED.  A waiter that has entered
the list and has not blocked yet is not, and `PopsBlocked` says that the call
meets no such waiter.  A call that restores a priority has to leave a RUNNING
caller in its bucket, and `KeepsBucket` says that it does.
-/

import MicrokernelRtos.SystemCalls
import MicrokernelRtos.Coherence.Rings

namespace MicrokernelRtos

variable {kernel result : Kernel} {window : Addr → Option WaitId} {t self : Addr} {call : Call}

/-- The lists mean what they should, with the given callers on their way. -/
structure Coherent (kernel : Kernel) (window : Addr → Option WaitId) : Prop where
  rings : kernel.RingsHold
  waits : ∃ waits, WaitCoherent kernel waits window

theorem Coherent.registry (coherent : Coherent kernel window) : RegistryShape kernel.toCore := by
  obtain ⟨waits, waiting⟩ := coherent.waits
  exact waiting.registry

theorem Coherent.congr {other : Kernel} (coherent : Coherent kernel window)
    (links : other.toLinks = kernel.toLinks) (addCalls : other.addCalls = kernel.addCalls)
    (registry : other.taskRegistry = kernel.taskRegistry) (config : other.config = kernel.config)
    (state : other.state = kernel.state) (bucket : other.prioBucket = kernel.prioBucket)
    (current : other.currentTcb = kernel.currentTcb) (idle : other.idleTcb = kernel.idleTcb)
    (mutex : other.mutex = kernel.mutex) (reason : other.blockReason = kernel.blockReason)
    (object : other.blockObject = kernel.blockObject) : Coherent other window := by
  obtain ⟨⟨rings, rung⟩, waits, waiting⟩ := coherent
  refine ⟨⟨rings, rung.congr ?_ ?_ addCalls registry state bucket current idle mutex⟩, waits,
    waiting.congr links registry config current state reason object⟩
  · rw [links]
  · rw [links]

/-! ### What the other tasks see of a call -/

/-- What the region of a call can write: these fields, and with the state and the
block reason at most one task is woken. -/
structure RegionWrites (before after : Core) : Prop where
  fields : after = { before with
    prioBucket := after.prioBucket
    priority := after.priority
    state := after.state
    blockedOnMutex := after.blockedOnMutex
    blockReason := after.blockReason
    blockObject := after.blockObject
    pendSv := after.pendSv
    mutex := after.mutex
    semaphore := after.semaphore
    msgQueue := after.msgQueue }
  woken : (after.state = before.state ∧ after.blockReason = before.blockReason) ∨
    ∃ t, after.state = Function.update before.state t .ready ∧
      after.blockReason = Function.update before.blockReason t .none

theorem wakeHead_writes {raised : Kernel} {list : WaitId} (pendSv : Bool)
    (object : ∃ semaphore msgQueue,
      raised = { kernel with semaphore := semaphore, msgQueue := msgQueue })
    (wake : wakeHead raised list = some result) :
    RegionWrites kernel.toCore { result.toCore with pendSv := pendSv } := by
  obtain ⟨semaphore, msgQueue, rfl⟩ := object
  rcases wakeHead_core wake with core | ⟨first, _, core⟩
  · rw [core]
    exact ⟨rfl, Or.inl ⟨rfl, rfl⟩⟩
  · rw [core]
    exact ⟨rfl, Or.inr ⟨first, rfl, rfl⟩⟩

theorem enqueue_writes {list : WaitId} {outcome : Outcome}
    (returned : (tcbEnqueueTail kernel list self).map (fun queued => (Outcome.blocks, queued)) =
      some (outcome, result)) : RegionWrites kernel.toCore result.toCore := by
  obtain ⟨queued, enqueued, equal⟩ := Option.map_eq_some_iff.mp returned
  cases equal
  rw [(tcbEnqueueTail_onlyWaits enqueued).core]
  exact ⟨rfl, Or.inl ⟨rfl, rfl⟩⟩

theorem callRegion_writes {outcome : Outcome}
    (returned : callRegion kernel self call = some (outcome, result)) :
    RegionWrites kernel.toCore result.toCore := by
  cases call with
  | lock m ticks =>
      rcases mutexLockRegion_cases returned with ⟨_, _, _, rfl⟩ | ⟨_, _, rfl⟩ |
        ⟨_, _, _, queued, enqueued, boost⟩
      · exact ⟨rfl, Or.inl ⟨rfl, rfl⟩⟩
      · exact ⟨rfl, Or.inl ⟨rfl, rfl⟩⟩
      · rw [lockJoin_core enqueued boost]
        exact ⟨rfl, Or.inl ⟨rfl, rfl⟩⟩
  | unlock m =>
      obtain ⟨unlocked, region, equal⟩ := Option.map_eq_some_iff.mp returned
      cases equal
      obtain ⟨restored, next, popped, restore, pop, ending⟩ := mutexUnlockRegion_cases region
      have core := (waitPopHighest_onlyWaits pop).core.trans (changePriority_onlyRings restore).core
      rcases ending with ⟨rfl, rfl⟩ | ⟨heir, woken, rfl, wake, rfl⟩
      · rw [schedulerMarkReschedule, release, core]
        exact ⟨rfl, Or.inl ⟨rfl, rfl⟩⟩
      · rw [schedulerMarkReschedule, (makeReady_onlyRings wake).core, readyFields, handOver, core]
        exact ⟨rfl, Or.inr ⟨heir, rfl, rfl⟩⟩
  | wait sem ticks =>
      simp only [callRegion, semaphoreWaitRegion] at returned
      split at returned
      · cases returned
        exact ⟨rfl, Or.inl ⟨rfl, rfl⟩⟩
      · exact enqueue_writes returned
  | post sem =>
      simp only [callRegion, semaphorePostRegion_eq] at returned
      split at returned
      · cases returned
        exact ⟨rfl, Or.inl ⟨rfl, rfl⟩⟩
      · rw [Option.map_map] at returned
        obtain ⟨woken, wake, equal⟩ := Option.map_eq_some_iff.mp returned
        cases equal
        exact wakeHead_writes true ⟨_, _, rfl⟩ wake
  | send q msg ticks =>
      simp only [callRegion, msgQueueSendRegion] at returned
      split at returned
      · obtain ⟨woken, wake, equal⟩ := Option.map_eq_some_iff.mp returned
        cases equal
        exact wakeHead_writes result.pendSv ⟨_, _, rfl⟩ wake
      · exact enqueue_writes returned
  | recv q ticks =>
      simp only [callRegion, msgQueueRecvRegion] at returned
      split at returned
      · obtain ⟨woken, wake, equal⟩ := Option.map_eq_some_iff.mp returned
        cases equal
        exact wakeHead_writes result.pendSv ⟨_, _, rfl⟩ wake
      · exact enqueue_writes returned
  | delay ticks =>
      cases returned
      exact ⟨rfl, Or.inl ⟨rfl, rfl⟩⟩

theorem RegionWrites.reason {before after : Core} (writes : RegionWrites before after)
    (still : after.state t = .blocked) : after.blockReason t = before.blockReason t := by
  rcases writes.woken with ⟨_, reason⟩ | ⟨woken, state, reason⟩
  · rw [reason]
  · have different : t ≠ woken := by
      rintro rfl
      rw [state, Function.update_self] at still
      cases still
    rw [reason, Function.update_of_ne different]

structure Quiet (before after : Core) : Prop where
  registry : after.taskRegistry = before.taskRegistry
  config : after.config = before.config
  current : after.currentTcb = before.currentTcb
  idle : after.idleTcb = before.idleTcb
  task : ∀ t, (after.state t = before.state t ∧ after.blockReason t = before.blockReason t ∧
      after.blockObject t = before.blockObject t ∧
      after.blockWakeStatus t = before.blockWakeStatus t) ∨
    (before.state t = .blocked ∧ after.state t = .ready)

theorem Quiet.of_fields {before after : Core}
    (registry : after.taskRegistry = before.taskRegistry) (config : after.config = before.config)
    (current : after.currentTcb = before.currentTcb) (idle : after.idleTcb = before.idleTcb)
    (state : after.state = before.state) (reason : after.blockReason = before.blockReason)
    (object : after.blockObject = before.blockObject)
    (status : after.blockWakeStatus = before.blockWakeStatus) : Quiet before after :=
  ⟨registry, config, current, idle, fun t =>
    Or.inl ⟨congrFun state t, congrFun reason t, congrFun object t, congrFun status t⟩⟩

theorem Quiet.refl (core : Core) : Quiet core core :=
  Quiet.of_fields rfl rfl rfl rfl rfl rfl rfl rfl

theorem Quiet.ready {before after : Core} (blocked : before.state t = .blocked)
    (registry : after.taskRegistry = before.taskRegistry) (config : after.config = before.config)
    (current : after.currentTcb = before.currentTcb) (idle : after.idleTcb = before.idleTcb)
    (state : after.state = Function.update before.state t .ready)
    (reason : after.blockReason = Function.update before.blockReason t .none)
    (object : after.blockObject = Function.update before.blockObject t none)
    (status : after.blockWakeStatus = before.blockWakeStatus) : Quiet before after := by
  refine ⟨registry, config, current, idle, fun item => ?_⟩
  rw [state, reason, object, status]
  by_cases same : item = t
  · subst item
    exact Or.inr ⟨blocked, Function.update_self _ _ _⟩
  · exact Or.inl ⟨Function.update_of_ne same _ _, Function.update_of_ne same _ _,
      Function.update_of_ne same _ _, rfl⟩

theorem Quiet.awake {before after : Core} (quiet : Quiet before after)
    (awake : before.state t ≠ .blocked) : after.state t ≠ .blocked := by
  rcases quiet.task t with ⟨same, _⟩ | ⟨blocked, _⟩
  · rw [same]
    exact awake
  · exact absurd blocked awake

theorem Wakes.quiet {before after : Core} {woken : Addr → Prop} (wakes : Wakes before after woken)
    (blocked : ∀ t, woken t → before.state t = .blocked) : Quiet before after := by
  have fields := wakes.fields
  refine ⟨by rw [fields], by rw [fields], by rw [fields], by rw [fields], fun t => ?_⟩
  by_cases isWoken : woken t
  · exact Or.inr ⟨blocked t isWoken, wakes.ready t isWoken⟩
  · exact Or.inl ⟨wakes.state t isWoken, wakes.reason t isWoken, wakes.object t isWoken,
      wakes.status t isWoken⟩

/-! ### The calls -/

/-- The waiter a call is about to wake is BLOCKED. -/
def PopsBlocked (kernel : Kernel) : Call → Prop
  | .unlock m => ∀ heir ∈ (waitPopHighest kernel (.mutex m)).bind Prod.fst,
      kernel.state heir = .blocked
  | .post sem => (kernel.semaphore sem).count < (kernel.semaphore sem).maxCount →
      ∀ first ∈ kernel.waitHead (.semaphore sem), kernel.state first = .blocked
  | .send q _ _ => (kernel.msgQueue q).count < (kernel.msgQueue q).depth →
      ∀ first ∈ kernel.waitHead (.msgRecv q), kernel.state first = .blocked
  | .recv q _ => 0 < (kernel.msgQueue q).count →
      ∀ first ∈ kernel.waitHead (.msgSend q), kernel.state first = .blocked
  | _ => True

instance (kernel : Kernel) (call : Call) : Decidable (PopsBlocked kernel call) :=
  match call with
  | .unlock m => inferInstanceAs (Decidable
      (∀ heir ∈ (waitPopHighest kernel (.mutex m)).bind Prod.fst, kernel.state heir = .blocked))
  | .post sem => inferInstanceAs (Decidable
      ((kernel.semaphore sem).count < (kernel.semaphore sem).maxCount →
        ∀ first ∈ kernel.waitHead (.semaphore sem), kernel.state first = .blocked))
  | .send q _ _ => inferInstanceAs (Decidable
      ((kernel.msgQueue q).count < (kernel.msgQueue q).depth →
        ∀ first ∈ kernel.waitHead (.msgRecv q), kernel.state first = .blocked))
  | .recv q _ => inferInstanceAs (Decidable
      (0 < (kernel.msgQueue q).count →
        ∀ first ∈ kernel.waitHead (.msgSend q), kernel.state first = .blocked))
  | .lock _ _ => isTrue trivial
  | .wait _ _ => isTrue trivial
  | .delay _ => isTrue trivial

/-- A RUNNING caller of unlock goes back to the bucket it is in. -/
def KeepsBucket (kernel : Kernel) (self : Addr) : Call → Prop
  | .unlock _ => kernel.state self = .running →
      prioBucket (kernel.basePriority self) = kernel.prioBucket self
  | _ => True

instance (kernel : Kernel) (self : Addr) (call : Call) :
    Decidable (KeepsBucket kernel self call) :=
  match call with
  | .unlock _ => inferInstanceAs (Decidable (kernel.state self = .running →
      prioBucket (kernel.basePriority self) = kernel.prioBucket self))
  | .lock _ _ => isTrue trivial
  | .wait _ _ => isTrue trivial
  | .post _ => isTrue trivial
  | .send _ _ _ => isTrue trivial
  | .recv _ _ => isTrue trivial
  | .delay _ => isTrue trivial

def afterPass (window : Addr → Option WaitId) (self : Addr) (call : Call) :
    Outcome → Addr → Option WaitId
  | .returns _ _ => window
  | .blocks => Function.update window self call.list

structure RegionKeeps (kernel : Kernel) (window : Addr → Option WaitId) (caller : Addr)
    (call : Call) (outcome : Outcome) (result : Kernel) : Prop where
  coherent : Coherent result (afterPass window caller call outcome)
  quiet : Quiet kernel.toCore result.toCore

theorem WaitCoherent.firstHighest_eq {waits : WaitId → List Addr} {list : WaitId}
    (waiting : WaitCoherent kernel waits window) {heir : Addr}
    (chosen : firstHighest kernel.priority (waits list) = some heir) :
    (waitPopHighest kernel list).bind Prod.fst = some heir := by
  have nonempty : waits list ≠ [] := List.ne_nil_of_mem (firstHighest_spec chosen).1
  obtain ⟨before, best, after, popped, split, above, atLeast, pop, _⟩ :=
    waitPopHighest_spec waiting.lists (waiting.length_le list) nonempty
  rw [split, firstHighest_of_split above atLeast] at chosen
  rw [pop]
  exact chosen

section Regions

variable (coherent : Coherent kernel window) (isCurrent : kernel.currentTcb = some self)
variable (notIdle : some self ≠ kernel.idleTcb) (awake : kernel.state self ≠ .blocked)
variable (outside : window self = none)

include coherent isCurrent notIdle awake outside

theorem lockRegion_keeps (m timeoutTicks : Nat) :
    ∃ outcome result, mutexLockRegion kernel m self = some (outcome, result) ∧
      RegionKeeps kernel window self (.lock m timeoutTicks) outcome result := by
  obtain ⟨rung, waits, waiting⟩ := coherent
  obtain ⟨outcome, result, returned, held⟩ :=
    mutexLockRegion_rings rung waiting isCurrent notIdle awake outside
  have live := waiting.registry.current self isCurrent
  refine ⟨outcome, result, returned, ⟨held, ?_⟩, ?_⟩
  · rcases mutexLockRegion_waits waiting live awake outside returned with
      ⟨rfl, keeps⟩ | ⟨rfl, keeps⟩
    · exact ⟨_, keeps⟩
    · exact ⟨_, keeps⟩
  · rcases mutexLockRegion_cases returned with
      ⟨_, _, _, rfl⟩ | ⟨_, _, rfl⟩ | ⟨_, _, _, queued, enqueued, boost⟩
    · exact Quiet.refl _
    · exact Quiet.of_fields rfl rfl rfl rfl rfl rfl rfl rfl
    · rw [lockJoin_core enqueued boost]
      exact Quiet.of_fields rfl rfl rfl rfl rfl rfl rfl rfl

theorem unlockRegion_keeps (m : Nat) (pops : PopsBlocked kernel (.unlock m))
    (bucket : KeepsBucket kernel self (.unlock m)) :
    ∃ result, mutexUnlockRegion kernel m self = some result ∧
      RegionKeeps kernel window self (.unlock m) (.returns .ok []) result := by
  obtain ⟨rung, waits, waiting⟩ := coherent
  have heirBlocked : ∀ heir, firstHighest kernel.priority (waits (.mutex m)) = some heir →
      kernel.state heir = .blocked := fun heir chosen => pops heir (waiting.firstHighest_eq chosen)
  obtain ⟨result, returned, held⟩ :=
    mutexUnlockRegion_rings rung waiting isCurrent notIdle awake outside bucket heirBlocked
  rcases mutexUnlockRegion_waits waiting awake outside heirBlocked returned with
    ⟨_, keeps, core⟩ | ⟨heir, chosen, keeps, core⟩
  · refine ⟨result, returned, ⟨held, _, keeps⟩, ?_⟩
    rw [core]
    exact Quiet.of_fields rfl rfl rfl rfl rfl rfl rfl rfl
  · refine ⟨result, returned, ⟨held, _, keeps⟩, ?_⟩
    rw [core]
    exact Quiet.ready (heirBlocked heir chosen) rfl rfl rfl rfl rfl rfl rfl rfl

omit isCurrent notIdle awake outside in
theorem wakeHead_keeps {list : WaitId}
    (headBlocked : ∀ first, kernel.waitHead list = some first → kernel.state first = .blocked) :
    ∃ result, wakeHead kernel list = some result ∧ Coherent result window ∧
      Quiet kernel.toCore result.toCore := by
  obtain ⟨rung, waits, waiting⟩ := coherent
  obtain ⟨result, returned, held⟩ := wakeHead_rings rung waiting headBlocked
  refine ⟨result, returned, ⟨held, _, wakeHead_waits waiting headBlocked returned⟩, ?_⟩
  rcases wakeHead_core returned with core | ⟨first, headAt, core⟩
  · rw [core]
    exact Quiet.refl _
  · rw [core]
    exact Quiet.ready (headBlocked first headAt) rfl rfl rfl rfl rfl rfl rfl rfl

omit notIdle in
theorem enqueue_keeps (list : WaitId) :
    ∃ result, tcbEnqueueTail kernel list self = some result ∧
      Coherent result (Function.update window self (some list)) ∧
      Quiet kernel.toCore result.toCore := by
  obtain ⟨⟨rings, rung⟩, waits, waiting⟩ := coherent
  have live := waiting.registry.current self isCurrent
  obtain ⟨result, returned, _⟩ := @tcbEnqueueTail_spec kernel waits list self waiting.lists
    (fun other => waiting.shape.notMem awake outside other)
  have frame := tcbEnqueueTail_onlyWaits returned
  refine ⟨result, returned, ⟨⟨rings, frame.ringCoherent rung⟩, _,
    tcbEnqueueTail_waits waiting live awake outside returned⟩, ?_⟩
  rw [frame.core]
  exact Quiet.refl _

theorem callRegion_keeps (call : Call) (pops : PopsBlocked kernel call)
    (bucket : KeepsBucket kernel self call) :
    ∃ outcome result, callRegion kernel self call = some (outcome, result) ∧
      RegionKeeps kernel window self call outcome result := by
  cases call with
  | lock m timeoutTicks =>
      exact lockRegion_keeps coherent isCurrent notIdle awake outside m timeoutTicks
  | unlock m =>
      obtain ⟨result, returned, keeps⟩ :=
        unlockRegion_keeps coherent isCurrent notIdle awake outside m pops bucket
      exact ⟨_, result, by simp only [callRegion, returned, Option.map_some], keeps⟩
  | wait sem timeoutTicks =>
      simp only [callRegion, semaphoreWaitRegion]
      split
      · exact ⟨_, _, rfl, coherent.congr rfl rfl rfl rfl rfl rfl rfl rfl rfl rfl rfl,
          Quiet.of_fields rfl rfl rfl rfl rfl rfl rfl rfl⟩
      · obtain ⟨result, returned, keeps, quiet⟩ :=
          enqueue_keeps coherent isCurrent awake outside (.semaphore sem)
        rw [returned]
        exact ⟨_, _, rfl, keeps, quiet⟩
  | post sem =>
      simp only [callRegion, semaphorePostRegion_eq]
      split
      · exact ⟨_, _, rfl, coherent, Quiet.refl _⟩
      · rename_i room
        have raised : Coherent (setCount kernel sem ((kernel.semaphore sem).count + 1)) window :=
          coherent.congr rfl rfl rfl rfl rfl rfl rfl rfl rfl rfl rfl
        obtain ⟨result, returned, keeps, quiet⟩ :=
          wakeHead_keeps raised (pops (Nat.lt_of_not_le room))
        rw [returned]
        exact ⟨_, _, rfl, keeps.congr rfl rfl rfl rfl rfl rfl rfl rfl rfl rfl rfl,
          ⟨quiet.registry, quiet.config, quiet.current, quiet.idle, quiet.task⟩⟩
  | send q msg timeoutTicks =>
      simp only [callRegion, msgQueueSendRegion]
      split
      · rename_i room
        have pushed : Coherent (setQueue kernel q (pushMessage (kernel.msgQueue q) msg)) window :=
          coherent.congr rfl rfl rfl rfl rfl rfl rfl rfl rfl rfl rfl
        obtain ⟨result, returned, keeps, quiet⟩ := wakeHead_keeps pushed (pops room)
        rw [returned]
        exact ⟨_, _, rfl, keeps,
          ⟨quiet.registry, quiet.config, quiet.current, quiet.idle, quiet.task⟩⟩
      · obtain ⟨result, returned, keeps, quiet⟩ :=
          enqueue_keeps coherent isCurrent awake outside (.msgSend q)
        rw [returned]
        exact ⟨_, _, rfl, keeps, quiet⟩
  | recv q timeoutTicks =>
      simp only [callRegion, msgQueueRecvRegion]
      split
      · rename_i some
        have taken : Coherent (setQueue kernel q (popMessage (kernel.msgQueue q))) window :=
          coherent.congr rfl rfl rfl rfl rfl rfl rfl rfl rfl rfl rfl
        obtain ⟨result, returned, keeps, quiet⟩ := wakeHead_keeps taken (pops some)
        rw [returned]
        exact ⟨_, _, rfl, keeps,
          ⟨quiet.registry, quiet.config, quiet.current, quiet.idle, quiet.task⟩⟩
      · obtain ⟨result, returned, keeps, quiet⟩ :=
          enqueue_keeps coherent isCurrent awake outside (.msgRecv q)
        rw [returned]
        exact ⟨_, _, rfl, keeps, quiet⟩
  | delay ticks =>
      have listIs : (Call.delay ticks).list = window self := outside.symm
      have same : Function.update window self (Call.delay ticks).list = window := by
        rw [listIs, Function.update_eq_self]
      refine ⟨.blocks, kernel, rfl, ?_, Quiet.refl _⟩
      rw [afterPass, same]
      exact coherent

end Regions

/-! ### Blocking -/

theorem blockFields_keeps (coherent : Coherent kernel window)
    (awake : kernel.state self ≠ .blocked) (reason : BlockReason) (obj : Option Nat) :
    Coherent (blockFields kernel self reason obj) window := by
  obtain ⟨⟨rings, rung⟩, waits, waiting⟩ := coherent
  exact ⟨⟨rings, rung.congr rfl rfl rfl rfl rfl rfl rfl rfl rfl⟩, waits,
    blockFields_waits waiting awake reason obj⟩

theorem blockRegion_keeps {timeoutTicks : Nat} (coherent : Coherent kernel window)
    (isCurrent : kernel.currentTcb = some self) (notIdle : some self ≠ kernel.idleTcb)
    (awake : kernel.state self ≠ .blocked)
    (named : waitId (kernel.blockReason self) (kernel.blockObject self) = window self) :
    ∃ result, blockRegion kernel self timeoutTicks = some result ∧
      Coherent result (Function.update window self none) ∧
      result.toCore =
        (schedulerMarkReschedule (blockState kernel self timeoutTicks)).toCore := by
  obtain ⟨⟨rings, rung⟩, waits, waiting⟩ := coherent
  have live := waiting.registry.current self isCurrent
  obtain ⟨result, returned, held⟩ :=
    @blockRegion_rings kernel rings self timeoutTicks rung waiting.registry live notIdle
  exact ⟨result, returned, ⟨held, waits, blockRegion_waits waiting live awake named returned⟩,
    (blockRegion_onlyRings returned).core⟩

/-! ### Ticks and the scheduler -/

theorem sysTickHandler_core (returned : sysTickHandler kernel = some result) :
    ∃ woken : Core, Wakes (rtosTickIncrement kernel).toCore woken (fun t =>
        t ∈ kernel.taskRegistry ∧
          Expires (rtosTickIncrement kernel) (rtosTickIncrement kernel).tickCount t) ∧
      result.toCore = { woken with
        timeSliceCounter := result.timeSliceCounter, pendSv := true } := by
  obtain ⟨woken, counter, wake, rfl⟩ := sysTickHandler_cases returned
  exact ⟨woken.toCore, wakeLoop_wakes wake, rfl⟩

theorem sysTickHandler_quiet (returned : sysTickHandler kernel = some result) :
    Quiet kernel.toCore result.toCore := by
  obtain ⟨woken, wakes, core⟩ := sysTickHandler_core returned
  have quiet := wakes.quiet fun t isWoken => isWoken.2.blocked
  rw [core]
  exact ⟨quiet.registry, quiet.config, quiet.current, quiet.idle, quiet.task⟩

theorem sysTickHandler_keeps (coherent : Coherent kernel window) :
    ∃ result, sysTickHandler kernel = some result ∧ Coherent result window := by
  obtain ⟨⟨rings, ringed⟩, waits, waiting⟩ := coherent
  obtain ⟨result, grown, returned, held, _⟩ := sysTickHandler_rings ringed waiting
  exact ⟨result, returned, ⟨grown, held⟩, _, sysTickHandler_waits waiting returned⟩

/-- `scheduler_get_next` returns a live task that is not BLOCKED. -/
theorem schedulerGetNext_keeps (coherent : Coherent kernel window) :
    ∃ sel result, schedulerGetNext kernel = some (sel, result) ∧ sel ∈ kernel.taskRegistry ∧
      kernel.state sel ≠ .blocked ∧ Coherent result window ∧
      result.toCore = (dispatch (preemptCurrent kernel) sel).toCore := by
  obtain ⟨⟨rings, ringed⟩, waits, waiting⟩ := coherent
  obtain ⟨sel, rest, result, returned, live, awake, _, _, held⟩ := schedulerGetNext_rings ringed
  have frame := schedulerGetNext_onlyRings returned
  exact ⟨sel, result, returned, live, awake,
    ⟨⟨_, held⟩, waits, frame.waitCoherent (select_waits waiting live awake)⟩, frame.core⟩

theorem dispatch_keeps {sel : Addr} (coherent : Coherent kernel window)
    (live : sel ∈ kernel.taskRegistry) (awake : kernel.state sel ≠ .blocked) :
    Coherent (dispatch (preemptCurrent kernel) sel) window := by
  obtain ⟨rung, waits, waiting⟩ := coherent
  exact ⟨dispatch_rings rung live awake, waits, select_waits waiting live awake⟩

/-! ### Tasks that come and go -/

theorem create_keeps {tcb priority : Nat} {added : Kernel} (coherent : Coherent kernel window)
    (fresh : tcb ∉ kernel.taskRegistry) (bounded : tcb < kernel.config.poolSize)
    (addition : schedulerAddTask (freshTask kernel tcb priority (prioBucket priority)) (some tcb) =
      some (.ok, added)) :
    Coherent { added with taskRegistry := added.taskRegistry ++ [tcb] } window := by
  obtain ⟨rung, waits, waiting⟩ := coherent
  obtain ⟨other, additionIs, held⟩ :=
    @create_rings kernel tcb priority rung waiting.registry fresh
  rw [addition] at additionIs
  cases additionIs
  exact ⟨held, waits, create_waits waiting fresh bounded addition⟩

theorem delete_keeps {detached removed : Kernel} (coherent : Coherent kernel window)
    (outside : window t = none) (notIdle : some t ≠ kernel.idleTcb)
    (notCurrent : some t ≠ kernel.currentTcb)
    (detachment : detachIfBlocked kernel t = some detached)
    (removal : schedulerRemoveTask detached (some t) = some removed) :
    Coherent { removed with
      state := Function.update removed.state t .terminated
      taskRegistry := removed.taskRegistry.erase t } window := by
  obtain ⟨rung, waits, waiting⟩ := coherent
  obtain ⟨other, rest, otherIs, restIs, held⟩ := delete_rings rung waiting outside notIdle
  rw [detachment] at otherIs
  cases otherIs
  rw [removal] at restIs
  cases restIs
  exact ⟨held, _, delete_waits waiting outside notCurrent detachment removal⟩

/-- A deletion keeps the kernel coherent unless the task is on its way to a list. -/
theorem taskDelete_keeps (coherent : Coherent kernel window)
    (outside : some t ≠ kernel.idleTcb → some t ≠ kernel.currentTcb → window t = none) :
    ∃ status result, taskDelete kernel (some t) = some (status, result) ∧
      Coherent result window := by
  unfold taskDelete
  dsimp only
  split
  · exact ⟨_, _, rfl, coherent⟩
  · rename_i notIdle
    split
    · exact ⟨_, _, rfl, coherent⟩
    · rename_i notCurrent
      have away := outside notIdle notCurrent
      obtain ⟨waits, waiting⟩ := coherent.waits
      obtain ⟨detached, removed, detachment, removal, _⟩ :=
        delete_rings coherent.rings waiting away notIdle
      have keeps := delete_keeps coherent away notIdle notCurrent detachment removal
      unfold detachIfBlocked at detachment
      rw [detachment, Option.bind_some, removal]
      exact ⟨_, _, rfl, keeps⟩

end MicrokernelRtos
