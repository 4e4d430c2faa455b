/-
When `task_create` fails, and what it leaves behind.

The registry counts the idle task, so that the last of the `RTOS_MAX_TASKS` tasks is
refused.  The size of the stack is rounded twice without a check.  The first rounding
wraps to 0, which the heap refuses, but the second one wraps to a request for no byte
at all, and every block of the free list is large enough for that.
-/

import MicrokernelRtos.Runs.TaskMemory

namespace MicrokernelRtos

open Linked Tiling Transition

/-- A creation has to fail: a parameter is wrong, there is no room for another task, or
the heap has no room for its blocks. -/
def MustFail (s : TaskMemory) (free : List Block) (taskFunc : Option Nat) (stackSize : Nat) :
    Prop :=
  taskFunc = none ∨ stackSize < minStackSize ∨
    s.system.kernel.config.maxTasks ≤ s.system.live.length ∨ ¬ HoldsBoth free stackSize

/-- The stack has the bytes that were asked for, and lies with the control block in
bytes of the pool that belong to nobody else. -/
structure Placed (s : TaskMemory) (stackSize tcb stk : Nat) : Prop where
  covers : stackSize ≤ roundedStack stackSize
  tcbInside : tcb + tcbSize ≤ heapPoolSize
  stackInside : stk + roundedStack stackSize ≤ heapPoolSize
  apart : Apart ⟨stk, roundedStack stackSize⟩ ⟨tcb, tcbSize⟩
  others : ∀ allocation ∈ s.allocations,
    Apart ⟨stk, roundedStack stackSize⟩ (allocation.block s.heap) ∧
      Apart ⟨tcb, tcbSize⟩ (allocation.block s.heap)

/-- `task_create` returns, with NULL exactly when it has to, without a trace if so, and
with a task in memory of its own if not. -/
structure CreatesExactly (s : TaskMemory) (free : List Block) (taskFunc : Option Nat)
    (priority stackSize : Nat) : Prop where
  returns : ∃ result,
    taskCreateOnHeap s.system.kernel s.heap taskFunc priority stackSize = some result
  null_iff : (∃ kernel heap, taskCreateOnHeap s.system.kernel s.heap taskFunc priority stackSize =
    some (none, kernel, heap)) ↔ MustFail s free taskFunc stackSize
  traceless : ∀ kernel heap,
    taskCreateOnHeap s.system.kernel s.heap taskFunc priority stackSize =
      some (none, kernel, heap) →
    kernel = s.system.kernel ∧ ∃ newFree, heap.FreeIs newFree ∧
      ∀ place, (∃ block ∈ newFree, block.start ≤ place ∧ place < block.stop) ↔
        ∃ block ∈ free, block.start ≤ place ∧ place < block.stop
  placed : ∀ tcb stk kernel heap,
    taskCreateOnHeap s.system.kernel s.heap taskFunc priority stackSize =
      some (some (tcb, stk), kernel, heap) →
    Placed s stackSize tcb stk

/-- One task is missing to the limit, and the heap could hold it. -/
def LastSlot (s : TaskMemory) (free : List Block) (taskFunc : Option Nat) (stackSize : Nat) :
    Prop :=
  taskFunc ≠ none ∧ minStackSize ≤ stackSize ∧
    s.system.live.length + 1 = s.system.kernel.config.maxTasks ∧ HoldsBoth free stackSize

/-- The request for the stack has wrapped to no byte, and a block is free when it is
made. -/
def WrappedRequest (s : TaskMemory) (free : List Block) (taskFunc : Option Nat)
    (stackSize : Nat) : Prop :=
  taskFunc ≠ none ∧ s.system.live.length + 1 < s.system.kernel.config.maxTasks ∧
    WrapsAway stackSize ∧ freeForStack free ≠ []

/-! ### A request for no byte -/

section NoByte

variable {heap : Heap} {live : List Allocation} {rest : List Block} {first : Block}

/-- A block of no byte that is its own neighbour is joined with itself forever. -/
theorem coalesceLoop_cycle {walk : Nat} (cycle : heap.next walk = some walk)
    (empty : heap.size walk = 0) (fuel : Nat) : coalesceLoop fuel heap (some walk) = none := by
  induction fuel generalizing heap with
  | zero => rfl
  | succ fuel ih =>
      rw [coalesceLoop, cycle]
      simp only
      rw [empty, if_pos (Nat.add_zero walk)]
      apply ih
      · exact (Function.update_self _ _ _).trans cycle
      · refine (Function.update_self _ _ _).trans ?_
        rw [empty]
        rfl

theorem Tiled.alloc_noByte (tiled : Tiled ⟨heap, live⟩ (first :: rest)) {size : Nat}
    (positive : size ≠ 0) (noByte : allocTotal size = 0) :
    ∃ after, heapAlloc heap size = some (some (first.start + headerSize), after) ∧
      after.heapReady = true ∧ after.freeList = some first.start ∧ after.size first.start = 0 := by
  have listed : first ∈ first :: rest := List.mem_cons_self
  have ready : heap.heapReady = true := tiled.ready
  have head : heap.freeList = some first.start := tiled.lists.links.1
  have sized : heap.size first.start = first.size := tiled.lists.sizes first listed
  have large := (tiled.sound first (Tiled.mem_free listed)).2.2
  have outside : first.start ∉ rest.map Block.start := tiled.lists.head_notMem
  have length := tiled.length_lt
  rw [List.length_cons] at length
  have stops : ∀ block ∈ first :: rest, block.stop < uint32Size := fun block member =>
    tiled.stop_lt (Tiled.mem_free member)
  obtain ⟨removed, _, frame⟩ := @removeFromList_spec heap [] rest first tiled.lists
  simp only [List.map_nil, List.getLast?_nil, List.nil_append] at removed frame
  have written := @writeFragment_lists _ _ _ first.size _ 0 removed outside outside
  obtain ⟨after, returned, joined, agrees⟩ := coalesceForward_spec
    (@prependFree_spec _ ⟨first.start, 0⟩ _ written (Function.update_self _ _ _) outside)
    (by omega) (by
      intro block member
      rcases List.mem_cons.mp member with isFirst | behind
      · have bound := stops first listed
        rw [isFirst]
        unfold Block.stop at bound ⊢
        simp only
        omega
      · exact stops block (List.mem_cons_of_mem _ behind))
  refine ⟨after, ?_, ?_, ?_⟩
  · have found : findFit heap 0 heapPoolSize none (some first.start) =
        some (some (none, first.start)) := by
      rw [show heapPoolSize = 32767 + 1 from rfl, findFit, if_pos (Nat.zero_le _)]
    have taken : takeBlock heap 0 first.start none = some after := by
      unfold takeBlock
      simp only [sized, Nat.sub_zero, Nat.add_zero]
      rw [if_pos (show headerSize + 8 ≤ first.size from large)]
      exact returned
    unfold heapAlloc
    rw [if_neg (by simp [ready, positive]), noByte, head, found]
    simp only
    rw [taken, Option.map_some]
  · exact agrees.1.trans (frame.1.trans ready)
  · obtain ⟨others, spelt⟩ : ∃ others, coalesceFrom ⟨first.start, 0⟩ rest =
        ⟨first.start, 0⟩ :: others := by
      cases rest with
      | nil => exact ⟨[], rfl⟩
      | cons follower rest =>
          have apart : ¬ (Block.mk first.start 0).stop = follower.start := by
            intro same
            exact outside (by rw [show first.start = follower.start from same]; simp)
          exact ⟨_, by rw [coalesceFrom, if_neg apart]⟩
    rw [spelt] at joined
    exact ⟨joined.links.1, joined.sizes _ List.mem_cons_self⟩

/-- That block cannot be given back: the list would begin with a cycle. -/
theorem heapFree_noByte (ready : heap.heapReady = true)
    (head : heap.freeList = some first.start) (empty : heap.size first.start = 0) :
    heapFree heap (some (first.start + headerSize)) = none := by
  unfold heapFree
  simp only [Nat.add_sub_cancel]
  rw [if_neg (by simp [ready])]
  apply coalesceLoop_cycle
  · exact (Function.update_self _ _ _).trans head
  · exact empty

end NoByte

/-! ### The results -/

section Results

variable {s : TaskMemory} {free : List Block} {taskFunc : Option Nat} {priority stackSize : Nat}

theorem MemoryCoherent.registry_length (holds : MemoryCoherent s) :
    s.system.kernel.taskRegistry.length = s.system.live.length + 1 := by
  obtain ⟨rings, rung⟩ := holds.system.coherent.rings
  obtain ⟨idle, _, isIdle, _⟩ := rung.shape.idle
  have live := holds.system.toLiveRegistry
  have notLive : idle ∉ s.system.live := fun member => live.idleApart idle member isIdle.symm
  have listed : s.system.kernel.taskRegistry.Perm (idle :: s.system.live) := by
    rw [List.perm_ext_iff_of_nodup holds.system.coherent.registry.distinct
      (List.nodup_cons.mpr ⟨notLive, live.distinct⟩)]
    intro t
    rw [live.registry, isIdle, List.mem_cons, Option.some.injEq]
    exact or_comm
  rw [listed.length_eq, List.length_cons]

theorem MemoryCoherent.accepted_iff (holds : MemoryCoherent s) :
    Accepted s.system.kernel taskFunc stackSize ↔
      taskFunc ≠ none ∧ minStackSize ≤ stackSize ∧
        s.system.live.length + 1 < s.system.kernel.config.maxTasks := by
  unfold Accepted
  rw [holds.registry_length]

theorem Tiled.given_inside {t : HeapRun} {allocation : Allocation} (tiled : Tiled t free)
    (member : allocation ∈ t.live) :
    Tiling.Inside ⟨allocation.ptr, allocation.requested⟩ (allocation.block t.heap) :=
  ⟨Nat.sub_le _ _, (tiled.inside allocation member).2⟩

theorem Created.placed {tcb stk : Nat} {kernel : Kernel} {heap : Heap}
    (created : Created s taskFunc priority stackSize tcb stk kernel heap) :
    Placed s stackSize tcb stk := by
  obtain ⟨rest, tiled⟩ := created.tiled
  have stackHeld : (⟨stk, roundedStack stackSize⟩ : Allocation) ∈
      ⟨stk, roundedStack stackSize⟩ :: tcbOf tcb :: s.allocations := List.mem_cons_self
  have tcbHeld : tcbOf tcb ∈ ⟨stk, roundedStack stackSize⟩ :: tcbOf tcb :: s.allocations :=
    List.mem_cons_of_mem _ List.mem_cons_self
  have stackGiven := tiled.given_inside stackHeld
  have tcbGiven := tiled.given_inside tcbHeld
  refine ⟨created.covers, ?_, ?_, ?_, ?_⟩
  · exact Nat.le_trans tcbGiven.2 (tiled.stop_le (Tiled.mem_live tcbHeld))
  · exact Nat.le_trans stackGiven.2 (tiled.stop_le (Tiled.mem_live stackHeld))
  · have blocks := tiled.live_apart (List.mem_cons_self (a := tcbOf tcb))
    exact ((blocks.of_inside stackGiven).symm.of_inside tcbGiven).symm
  · intro allocation member
    have fromStack := tiled.live_apart (List.mem_cons_of_mem (tcbOf tcb) member)
    have fromTcb := (tiled.perm (List.Perm.swap _ _ _)).live_apart (List.mem_cons_of_mem _ member)
    rw [created.others allocation member] at fromStack fromTcb
    exact ⟨fromStack.of_inside stackGiven, fromTcb.of_inside tcbGiven⟩

theorem MemoryCoherent.createsExactly (holds : MemoryCoherent s)
    (tiled : Tiled ⟨s.heap, s.allocations⟩ free) (isSize : stackSize < uint32Size)
    (accepted : Accepted s.system.kernel taskFunc stackSize)
    (found : WrapsAway stackSize → freeForStack free = []) :
    CreatesExactly s free taskFunc priority stackSize := by
  obtain ⟨isFunction, large, room⟩ := holds.accepted_iff.mp accepted
  have mustFail : MustFail s free taskFunc stackSize ↔ ¬ HoldsBoth free stackSize := by
    unfold MustFail
    constructor
    · rintro (missing | small | full | lacks)
      · exact absurd missing isFunction
      · omega
      · omega
      · exact lacks
    · exact fun lacks => Or.inr (Or.inr (Or.inr lacks))
  rcases @MemoryCoherent.create s free taskFunc priority stackSize holds tiled accepted isSize
      found with
    ⟨lacks, after, newFree, returned, kept, same⟩ |
      ⟨fits, newTcb, newStk, created, after, returned, creation⟩
  · refine ⟨⟨_, returned⟩, ?_, ?_, ?_⟩
    · rw [mustFail]
      exact ⟨fun _ => lacks, fun _ => ⟨_, _, returned⟩⟩
    · intro kernel heap isResult
      cases returned.symm.trans isResult
      refine ⟨rfl, newFree, kept.lists, fun place => ?_⟩
      rw [← covered_iff, ← covered_iff]
      exact covered_iff_of_count (same place)
    · intro tcb stk kernel heap isResult
      cases returned.symm.trans isResult
  · refine ⟨⟨_, returned⟩, ?_, ?_, ?_⟩
    · rw [mustFail]
      constructor
      · rintro ⟨kernel, heap, isResult⟩
        cases returned.symm.trans isResult
      · exact fun lacks => absurd fits lacks
    · intro kernel heap isResult
      cases returned.symm.trans isResult
    · intro tcb stk kernel heap isResult
      cases returned.symm.trans isResult
      exact creation.placed

theorem MemoryCoherent.refused_iff (holds : MemoryCoherent s) (lists : s.heap.FreeIs free)
    (refused : ¬ Accepted s.system.kernel taskFunc stackSize) :
    CreatesExactly s free taskFunc priority stackSize ↔ ¬ LastSlot s free taskFunc stackSize := by
  have returned : taskCreateOnHeap s.system.kernel s.heap taskFunc priority stackSize =
      some (none, s.system.kernel, s.heap) := taskCreateOnHeap_refused refused
  rw [holds.accepted_iff] at refused
  constructor
  · rintro exactly ⟨isFunction, large, last, fits⟩
    rcases exactly.null_iff.mp ⟨_, _, returned⟩ with missing | small | full | lacks
    · exact isFunction missing
    · omega
    · omega
    · exact lacks fits
  · intro notLast
    refine ⟨⟨_, returned⟩, ⟨fun _ => ?_, fun _ => ⟨_, _, returned⟩⟩, ?_, ?_⟩
    · by_contra mustNot
      unfold MustFail at mustNot
      simp only [not_or, not_not, Nat.not_lt, Nat.not_le] at mustNot
      obtain ⟨isFunction, large, room, fits⟩ := mustNot
      have full : ¬ s.system.live.length + 1 < s.system.kernel.config.maxTasks := fun more =>
        refused ⟨isFunction, large, more⟩
      exact notLast ⟨isFunction, large, by omega, fits⟩
    · intro kernel heap isResult
      cases returned.symm.trans isResult
      exact ⟨rfl, free, lists, fun _ => Iff.rfl⟩
    · intro tcb stk kernel heap isResult
      cases returned.symm.trans isResult

/-- A request that has wrapped and finds a block: with a control block a task is
created without a stack, and without one `task_create` does not return. -/
theorem MemoryCoherent.wrapped (holds : MemoryCoherent s)
    (tiled : Tiled ⟨s.heap, s.allocations⟩ free) (isSize : stackSize < uint32Size)
    (accepted : Accepted s.system.kernel taskFunc stackSize) (wraps : WrapsAway stackSize)
    (found : freeForStack free ≠ []) : ¬ CreatesExactly s free taskFunc priority stackSize := by
  intro exactly
  rcases roundedStack_cases isSize with ⟨fits, _⟩ | ⟨_, positive, noByte⟩ | ⟨beyond, _⟩
  · exact absurd wraps.1 (Nat.not_le.mpr fits)
  · rcases tiled.request (by decide) (show tcbSize + 15 < uint32Size by decide) with
      ⟨_, refused, null⟩ | ⟨tcb, first, left, _, granted, returned, _, taken⟩
    · rw [freeForStack, refused, Option.getD_none] at found
      obtain ⟨block, rest, rfl⟩ := List.exists_cons_of_ne_nil found
      obtain ⟨after, stackReturned, ready, head, empty⟩ := tiled.alloc_noByte positive noByte
      obtain ⟨result, isResult⟩ := exactly.returns
      rw [taskCreateOnHeap_accepted accepted null stackReturned] at isResult
      simp only [createWithBlocks, freeBoth, heapFree_null, Option.bind_some,
        heapFree_noByte ready head empty, Option.map_none] at isResult
      cases isResult
    · rw [freeForStack, granted, Option.getD_some] at found
      obtain ⟨block, rest, rfl⟩ := List.exists_cons_of_ne_nil found
      obtain ⟨stk, second, stackReturned⟩ := (taken.allocSucceeds_iff _).mpr
        ⟨positive, block, List.mem_cons_self, by rw [noByte]; exact Nat.zero_le _⟩
      obtain ⟨_, _, unregistered, _⟩ := holds.system.toLiveRegistry.fresh (holds.fresh taken)
      obtain ⟨installed, created, _⟩ :=
        @createWithBlocks_installs taskFunc priority stackSize _ second tcb stk accepted
          holds.system.coherent unregistered
      have oversized : heapPoolSize < stackSize := by
        have most := wraps.1
        unfold heapPoolSize
        unfold uint32Size at most
        omega
      have lacks : ¬ HoldsBoth free stackSize := by
        rintro ⟨other, alsoGranted, large, member, fits⟩
        rw [granted] at alsoGranted
        cases alsoGranted
        exact absurd fits (Nat.not_le.mpr (taken.small_of_oversized oversized large member))
      obtain ⟨kernel, heap, isNull⟩ := exactly.null_iff.mpr (Or.inr (Or.inr (Or.inr lacks)))
      rw [taskCreateOnHeap_accepted accepted returned stackReturned, created] at isNull
      cases isNull
  · exact absurd wraps.2 (Nat.not_le.mpr beyond)

theorem MemoryCoherent.createsExactly_iff_of_tiled (holds : MemoryCoherent s)
    (tiled : Tiled ⟨s.heap, s.allocations⟩ free) (isSize : stackSize < uint32Size) :
    CreatesExactly s free taskFunc priority stackSize ↔
      ¬ LastSlot s free taskFunc stackSize ∧ ¬ WrappedRequest s free taskFunc stackSize := by
  by_cases accepted : Accepted s.system.kernel taskFunc stackSize
  · obtain ⟨isFunction, large, room⟩ := holds.accepted_iff.mp accepted
    constructor
    · intro exactly
      refine ⟨fun last => ?_, fun wrapped => ?_⟩
      · have isLast := last.2.2.1
        omega
      · exact holds.wrapped tiled isSize accepted wrapped.2.2.1 wrapped.2.2.2 exactly
    · rintro ⟨_, unwrapped⟩
      apply holds.createsExactly tiled isSize accepted
      intro wraps
      by_contra found
      exact unwrapped ⟨isFunction, room, wraps, found⟩
  · rw [holds.refused_iff tiled.lists accepted]
    constructor
    · intro notLast
      refine ⟨notLast, fun wrapped => ?_⟩
      obtain ⟨isFunction, room, wraps, _⟩ := wrapped
      have most := wraps.1
      apply accepted
      refine holds.accepted_iff.mpr ⟨isFunction, ?_, room⟩
      unfold minStackSize
      unfold uint32Size at most
      omega
    · exact And.left

end Results

/-- In every run in which no request that has wrapped finds a block, no unlock takes a
RUNNING caller out of its bucket and no owner of a mutex is deleted, `task_create` does
what it should exactly if neither the last slot is asked for nor the request for the
stack wraps and finds a block. -/
theorem createsExactly_iff (s : TaskMemory)
    (reached : Reachable MemoryBooted memoryStep MemoryAllowed s) :
    ∃ free, s.heap.FreeIs free ∧
      ∀ taskFunc priority stackSize, stackSize < uint32Size →
        (CreatesExactly s free taskFunc priority stackSize ↔
          ¬ LastSlot s free taskFunc stackSize ∧ ¬ WrappedRequest s free taskFunc stackSize) := by
  have holds := Reachable.memoryCoherent reached
  obtain ⟨free, tiled⟩ := holds.tiled
  refine ⟨free, tiled.lists, fun taskFunc priority stackSize isSize => ?_⟩
  exact holds.createsExactly_iff_of_tiled tiled isSize

theorem createsExactly_third_task :
    ∃ s free, s.system.live.length = 1 ∧ s.heap.FreeIs free ∧
      CreatesExactly s free (some 0) 5 1000 := by
  obtain ⟨s, lockless, found⟩ :=
    @exists_reachable_of_run TaskMemory MemoryAction MemoryBooted memoryStep
      (fun s a => locklessCheck s a = true) locklessCheck
      (fun s => decide (s.system.live.length = 1 ∧ s.system.kernel.config.maxTasks = 32))
      (fun _ _ => id)
      [.create (some 0) 3 300, .create (some 0) 4 512, .delete 96] bootedMemory
      memoryBooted_bootedMemory (by decide +kernel)
  have reached := Reachable.of_lockless lockless
  obtain ⟨one, limit⟩ := of_decide_eq_true found
  obtain ⟨free, lists, exactly⟩ := createsExactly_iff s reached
  refine ⟨s, free, one, lists, (exactly (some 0) 5 1000 (by decide)).mpr ⟨?_, ?_⟩⟩
  · rintro ⟨_, _, last, _⟩
    rw [one, limit] at last
    cases last
  · rintro ⟨_, _, wraps, _⟩
    exact absurd wraps.1 (by decide)

theorem Heap.FreeIs.eq_single {heap : Heap} {free : List Block} {only : Nat}
    (lists : heap.FreeIs free) (first : heap.freeList = some only)
    (last : heap.next only = none) : free = [heap.blockAt only] := by
  have path := lists.links
  rw [first] at path
  cases free with
  | nil => cases path
  | cons block rest =>
      have start : only = block.start := Option.some.inj path.1
      have behind := path.2
      rw [← start, last] at behind
      cases rest with
      | nil => rw [start, Heap.blockAt, lists.sizes block List.mem_cons_self]
      | cons follower rest => cases behind.1

/-- With 31 tasks alive, which leaves one to the limit of 32, and 21768 bytes free,
another task is refused. -/
theorem not_createsExactly_last_slot :
    ¬ ∀ s, Reachable MemoryBooted memoryStep MemoryAllowed s → ∃ free, s.heap.FreeIs free ∧
      ∀ taskFunc priority stackSize, stackSize < uint32Size →
        CreatesExactly s free taskFunc priority stackSize := by
  intro always
  obtain ⟨s, reached, found⟩ :=
    @exists_reachable_of_run TaskMemory MemoryAction MemoryBooted memoryStep MemoryAllowed
      memoryCheck
      (fun s => decide (s.system.live.length = 31 ∧ s.system.kernel.config.maxTasks = 32 ∧
        s.heap.freeList = some 11000 ∧ s.heap.next 11000 = none ∧ s.heap.size 11000 = 21768))
      memoryAllowed_of_check (List.replicate 31 (.create (some 0) 3 256)) bootedMemory
      memoryBooted_bootedMemory (by decide +kernel)
  obtain ⟨tasks, limit, first, last, bytes⟩ := of_decide_eq_true found
  obtain ⟨free, lists, exactly⟩ := always s reached
  have holds := Reachable.memoryCoherent reached
  have refused : ¬ Accepted s.system.kernel (some 0) 256 := by
    rw [holds.accepted_iff, tasks, limit]
    decide
  refine (holds.refused_iff lists refused).mp (exactly (some 0) 3 256 (by decide)) ?_
  have single := lists.eq_single first last
  rw [Heap.blockAt, bytes] at single
  refine ⟨by decide, by decide, by rw [tasks, limit], ?_⟩
  rw [single]
  exact ⟨[⟨11088, 21680⟩], by decide, ⟨11088, 21680⟩, List.mem_cons_self, by decide⟩

end MicrokernelRtos
