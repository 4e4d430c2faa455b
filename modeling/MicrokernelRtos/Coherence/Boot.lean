/-
The state in which the application finds the kernel: every object has been
initialised and `task_init` has returned `RTOS_OK`.

The memory of the task control blocks and the tick counter may hold anything.
-/

import MicrokernelRtos.Coherence.Calls

namespace MicrokernelRtos

open Linked

/-- Every object holds what its init function writes. -/
structure Initialised (kernel : Kernel) : Prop where
  mutex : ∀ m, mutexInit kernel (some m) = (.ok, kernel)
  semaphore : ∀ sem, ∃ initial maxCount,
    semaphoreInit kernel (some sem) initial maxCount = (.ok, kernel)
  msgQueue : ∀ q, ∃ storage msgSize depth,
    msgQueueInit kernel (some q) (some storage) msgSize depth = (.ok, kernel)

/-- `task_init` has run and `scheduler_add_task` had not been called before. -/
def Booted (kernel : Kernel) : Prop :=
  ∃ start idle, Initialised start ∧ start.addCalls = [] ∧ idle < start.config.poolSize ∧
    taskInit start (some idle) = some (.ok, kernel)

variable {kernel : Kernel}

theorem Initialised.mutex_eq (initialised : Initialised kernel) (m : Nat) :
    kernel.mutex m = { locked := false, owner := none } := by
  have written : (mutexInit kernel (some m)).2.mutex m = kernel.mutex m := by
    rw [initialised.mutex m]
  simpa [mutexInit] using written.symm

theorem Initialised.msgQueue_eq (initialised : Initialised kernel) (q : Nat) :
    (kernel.msgQueue q).count = 0 ∧ (kernel.msgQueue q).head = 0 ∧
      (kernel.msgQueue q).tail = 0 ∧ 0 < (kernel.msgQueue q).depth ∧
      0 < (kernel.msgQueue q).msgSize := by
  obtain ⟨storage, msgSize, depth, isInit⟩ := initialised.msgQueue q
  unfold msgQueueInit at isInit
  dsimp only at isInit
  split at isInit
  · cases isInit
  · rename_i accepted
    have written := congrArg (fun pair => pair.2.msgQueue q) isInit
    simp only [Function.update_self] at written
    rw [← written]
    dsimp only
    omega

theorem Initialised.waits_empty (initialised : Initialised kernel) (list : WaitId) :
    kernel.waitHead list = none ∧ kernel.waitTail list = none := by
  cases list with
  | mutex m =>
      have isInit := initialised.mutex m
      exact ⟨by simpa [mutexInit] using
          (congrArg (fun pair => pair.2.waitHead (.mutex m)) isInit).symm,
        by simpa [mutexInit] using
          (congrArg (fun pair => pair.2.waitTail (.mutex m)) isInit).symm⟩
  | semaphore sem =>
      obtain ⟨initial, maxCount, isInit⟩ := initialised.semaphore sem
      unfold semaphoreInit at isInit
      dsimp only at isInit
      split at isInit
      · cases isInit
      · exact ⟨by simpa using
            (congrArg (fun pair => pair.2.waitHead (.semaphore sem)) isInit).symm,
          by simpa using (congrArg (fun pair => pair.2.waitTail (.semaphore sem)) isInit).symm⟩
  | msgSend q =>
      obtain ⟨storage, msgSize, depth, isInit⟩ := initialised.msgQueue q
      unfold msgQueueInit at isInit
      dsimp only at isInit
      split at isInit
      · cases isInit
      · exact ⟨by simpa using (congrArg (fun pair => pair.2.waitHead (.msgSend q)) isInit).symm,
          by simpa using (congrArg (fun pair => pair.2.waitTail (.msgSend q)) isInit).symm⟩
  | msgRecv q =>
      obtain ⟨storage, msgSize, depth, isInit⟩ := initialised.msgQueue q
      unfold msgQueueInit at isInit
      dsimp only at isInit
      split at isInit
      · cases isInit
      · exact ⟨by simpa using (congrArg (fun pair => pair.2.waitHead (.msgRecv q)) isInit).symm,
          by simpa using (congrArg (fun pair => pair.2.waitTail (.msgRecv q)) isInit).symm⟩

theorem Initialised.withConfig (initialised : Initialised kernel) (config : Config) :
    Initialised { kernel with config := config } := by
  refine ⟨fun m => ?_, fun sem => ?_, fun q => ?_⟩
  · have written := congrArg Prod.snd (initialised.mutex m)
    exact congrArg (fun other : Kernel => (Status.ok, { other with config := config })) written
  · obtain ⟨initial, maxCount, isInit⟩ := initialised.semaphore sem
    refine ⟨initial, maxCount, ?_⟩
    unfold semaphoreInit at isInit ⊢
    dsimp only at isInit ⊢
    split at isInit
    · cases isInit
    · rename_i accepted
      have written := congrArg Prod.snd isInit
      rw [if_neg accepted]
      exact congrArg (fun other : Kernel => (Status.ok, { other with config := config })) written
  · obtain ⟨storage, msgSize, depth, isInit⟩ := initialised.msgQueue q
    refine ⟨storage, msgSize, depth, ?_⟩
    unfold msgQueueInit at isInit ⊢
    dsimp only at isInit ⊢
    split at isInit
    · cases isInit
    · rename_i accepted
      have written := congrArg Prod.snd isInit
      rw [if_neg accepted]
      exact congrArg (fun other : Kernel => (Status.ok, { other with config := config })) written

def bareKernel (start : Kernel) (idle : Addr) : Kernel :=
  { schedulerInit start with taskRegistry := [], idleTcb := some idle }

/-- After `task_init` the idle task is the only one. -/
theorem Booted.spec (booted : Booted kernel) :
    ∃ start idle, Initialised start ∧ idle < start.config.poolSize ∧
      kernel.toCore =
        { (freshTask (bareKernel start idle) idle 255 lastBucket).toCore with
          taskRegistry := [idle] } ∧
      kernel.waitHead = start.waitHead ∧ kernel.waitTail = start.waitTail ∧
      kernel.RingsAre (Function.update (fun _ => []) lastBucket [idle]) := by
  obtain ⟨start, idle, initialised, noCalls, bounded, returned⟩ := booted
  refine ⟨start, idle, initialised, bounded, ?_⟩
  have emptyRings :
      (freshTask (bareKernel start idle) idle 255 lastBucket).RingsAre fun _ => [] := by
    refine ⟨⟨fun _ => isRing_empty _, ?_⟩, ?_⟩
    · intro left right item member
      exact absurd member List.not_mem_nil
    · intro call member
      have none : call ∈ start.addCalls := member
      rw [noCalls] at none
      exact absurd none List.not_mem_nil
  obtain ⟨added, addition, frame, lists⟩ :=
    schedulerAddTask_spec emptyRings (Nat.zero_le _) (fun _ => List.not_mem_nil)
      (Function.update_self _ _ _)
  have bucketIs :
      (freshTask (bareKernel start idle) idle 255 lastBucket).prioBucket idle = lastBucket :=
    Function.update_self _ _ _
  rw [bucketIs, List.nil_append] at lists
  have registry : added.taskRegistry = [] := by
    rw [frame.core]
    rfl
  have installed : taskInit start (some idle) = some (.ok, registryAdd added idle) := by
    have equation := installTask_eq (bareKernel start idle) idle 0 255 lastBucket
    rw [addition] at equation
    exact equation
  rw [installed] at returned
  cases returned
  have room : added.taskRegistry.length < added.config.maxTasks + 1 := by
    rw [registry]
    exact Nat.succ_pos _
  unfold registryAdd
  rw [if_pos room, registry]
  refine ⟨?_, frame.waitHead, frame.waitTail, lists.family, lists.fresh⟩
  rw [frame.core]
  rfl

def resetKernel : Kernel where
  config := {}
  prioBucket := fun _ => firstBucket
  priority := fun _ => 0
  state := fun _ => .ready
  wakeTime := fun _ => 0
  basePriority := fun _ => 0
  blockedOnMutex := fun _ => none
  timeSliceCounter := fun _ => 0
  blockReason := fun _ => .none
  blockObject := fun _ => none
  blockWakeStatus := fun _ => .ok
  currentTcb := none
  idleTcb := none
  pendSv := false
  taskRegistry := []
  tickCount := 0
  mutex := fun _ => { locked := false, owner := none }
  semaphore := fun _ => { count := 0, maxCount := 1 }
  msgQueue := fun _ =>
    { buffer := fun _ => 0, msgSize := 1, depth := 1, head := 0, tail := 0, count := 0 }
  nextReady := fun _ => none
  readyHead := fun _ => none
  mutexWaitNext := fun _ => none
  waitHead := fun _ => none
  waitTail := fun _ => none
  addCalls := []

theorem initialised_resetKernel : Initialised resetKernel := by
  have heads : ∀ list, Function.update resetKernel.waitHead list none = resetKernel.waitHead :=
    fun list => Function.update_eq_self list resetKernel.waitHead
  have tails : ∀ list, Function.update resetKernel.waitTail list none = resetKernel.waitTail :=
    fun list => Function.update_eq_self list resetKernel.waitTail
  refine ⟨fun m => ?_, fun sem => ⟨0, 1, ?_⟩, fun q => ⟨fun _ => 0, 1, 1, ?_⟩⟩
  · have same : Function.update resetKernel.mutex m { locked := false, owner := none } =
        resetKernel.mutex := Function.update_eq_self m resetKernel.mutex
    simp only [mutexInit, heads, tails, same]
  · have same : Function.update resetKernel.semaphore sem { count := 0, maxCount := 1 } =
        resetKernel.semaphore := Function.update_eq_self sem resetKernel.semaphore
    simp only [semaphoreInit, heads, tails, same]
    simp
  · have same : Function.update resetKernel.msgQueue q
        { buffer := fun _ => 0, msgSize := 1, depth := 1, head := 0, tail := 0, count := 0 } =
        resetKernel.msgQueue := Function.update_eq_self q resetKernel.msgQueue
    simp only [msgQueueInit, heads, tails, same]
    simp

def bootedKernel : Kernel :=
  match taskInit resetKernel (some 0) with
  | some (_, kernel) => kernel
  | none => resetKernel

theorem booted_bootedKernel : Booted bootedKernel :=
  ⟨resetKernel, 0, initialised_resetKernel, rfl, by decide, rfl⟩

theorem Booted.coherent (booted : Booted kernel) : Coherent kernel noWindow := by
  obtain ⟨start, idle, initialised, bounded, core, heads, tails, lists⟩ := booted.spec
  refine ⟨⟨_, lists, ?_⟩, fun _ => [], ?_, ?_, ?_⟩
  · rw [core]
    constructor
    · intro bucket t
      by_cases last : bucket = lastBucket
      · subst bucket
        by_cases same : t = idle
        · subst t
          simp [freshTask]
        · simp [same]
      · by_cases same : t = idle
        · subst t
          simp [last, freshTask, Ne.symm last]
        · simp [last, same]
    · intro t member
      rw [List.mem_singleton.mp member]
      exact Or.inl (Function.update_self _ _ _)
    · intro t member runs
      rw [List.mem_singleton.mp member] at runs
      simp [freshTask] at runs
    · exact ⟨idle, List.mem_singleton_self idle, rfl, by simp [freshTask], by simp [freshTask]⟩
    · intro m o owns
      have free : start.mutex m = { locked := false, owner := none } := initialised.mutex_eq m
      have clash : (start.mutex m).owner = some o := owns
      rw [free] at clash
      cases clash
  · refine ⟨fun list => ?_, ?_⟩
    · rw [heads, tails, (initialised.waits_empty list).1, (initialised.waits_empty list).2]
      exact isQueue_empty _
    · intro left right item member
      exact absurd member List.not_mem_nil
  · rw [core]
    refine ⟨List.nodup_singleton idle, ?_, ?_⟩
    · intro t member
      rw [List.mem_singleton.mp member]
      exact bounded
    · intro t isCurrent
      cases isCurrent
  · rw [core]
    constructor
    · intro list t
      simp only [List.not_mem_nil, false_iff]
      rintro ⟨member, waiting | onWay⟩
      · rw [List.mem_singleton.mp member] at waiting
        simp [freshTask] at waiting
      · cases onWay
    · intro t list onWay
      cases onWay

end MicrokernelRtos
