/-
The kernel together with the heap that holds the control blocks and the stacks of
its tasks.

`task_create` asks the heap for a control block and for a stack, and gives back what
it was given when it was refused the other.  `task_delete` gives both back.  The
kernel and the tasks write into the bytes of their blocks as other clients of the
heap do, so that such writes are steps of their own.

The fields of a control block are read at its address, whether it is allocated or
not.  That is what the code does as long as every control block the kernel is led to
is allocated, which a deleted owner of a mutex is not.
-/

import Mathlib.Data.List.TakeWhile
import MicrokernelRtos.Runs.Coalescing
import MicrokernelRtos.Runs.Deletion

namespace MicrokernelRtos

open Linked Tiling Transition

/-! ### The code -/

/-- `sizeof(TCB_t)` with enumerations of one byte.  With enumerations of four bytes it
is 80, which takes the same block of the heap. -/
def tcbSize : Nat := 76

/-- `stack_size = (stack_size + 7u) & ~7u;` -/
def roundedStack (stackSize : Nat) : Nat := (stackSize + 7) % uint32Size / 8 * 8

def freeBoth (heap : Heap) (first second : Option Nat) : Option Heap :=
  (heapFree heap first).bind fun freed => heapFree freed second

/-- `task_create` behind its two requests.  A new task is returned with its
`stack_base`. -/
def createWithBlocks (kernel : Kernel) (heap : Heap) (taskFunc : Option Nat) (priority : Nat) :
    Option Nat → Option Nat → Option (Option (Addr × Nat) × Kernel × Heap)
  | some tcb, some stk =>
      (installTask kernel tcb taskFunc priority (prioBucket priority)).bind fun installed =>
        if installed.1 ≠ .ok then
          (freeBoth heap (some stk) (some tcb)).map fun freed => (none, installed.2, freed)
        else some (some (tcb, stk), installed.2, heap)
  | tcb, stk => (freeBoth heap tcb stk).map fun freed => (none, kernel, freed)

def taskCreateOnHeap (kernel : Kernel) (heap : Heap) (taskFunc : Option Nat)
    (priority stackSize : Nat) : Option (Option (Addr × Nat) × Kernel × Heap) :=
  if taskFunc = none ∨ stackSize < minStackSize then some (none, kernel, heap)
  else if kernel.taskRegistry.length ≥ kernel.config.maxTasks then some (none, kernel, heap)
  else
    (heapAlloc heap tcbSize).bind fun first =>
      (heapAlloc first.2 (roundedStack stackSize)).bind fun second =>
        createWithBlocks kernel second.2 taskFunc priority first.1 second.1

def taskDeleteOnHeap (kernel : Kernel) (heap : Heap) (tcb : Addr) (stackBase : Nat) :
    Option (Status × Kernel × Heap) :=
  (taskDelete kernel (some tcb)).bind fun deleted =>
    if deleted.1 = .ok then
      (freeBoth heap (some stackBase) (some tcb)).map fun freed => (.ok, deleted.2, freed)
    else some (deleted.1, deleted.2, heap)

/-! ### The runs -/

/-- The tasks, the heap, the stack of each task, and what the application has
allocated for itself. -/
structure TaskMemory where
  system : System
  heap : Heap
  stackOf : Addr → Allocation
  app : List Allocation

def tcbOf (t : Addr) : Allocation := ⟨t, tcbSize⟩

/-- Everything that is allocated.  The stack of the idle task is a static array. -/
def TaskMemory.allocations (s : TaskMemory) : List Allocation :=
  (s.system.kernel.idleTcb.toList ++ s.system.live).map tcbOf ++
    (s.system.live.map s.stackOf ++ s.app)

def TaskMemory.memory (s : TaskMemory) : HeapRun := ⟨s.heap, s.allocations⟩

def TaskMemory.withTask (s : TaskMemory) (kernel : Kernel) (heap : Heap) (tcb : Addr)
    (stack : Allocation) : TaskMemory :=
  { s with
    system := { kernel := kernel, live := tcb :: s.system.live }
    heap := heap
    stackOf := Function.update s.stackOf tcb stack }

inductive MemoryAction where
  | create (taskFunc : Option Nat) (priority stackSize : Nat)
  | delete (tcb : Addr)
  | kernel (action : Action)
  | alloc (size : Nat)
  | free (allocation : Allocation)
  | write (size : Nat → Nat) (next : Nat → Option Nat)

def memoryStep (s : TaskMemory) : MemoryAction → Option TaskMemory
  | .create taskFunc priority stackSize =>
      if canCall s.system.kernel then
        (taskCreateOnHeap s.system.kernel s.heap taskFunc priority stackSize).map fun created =>
          match created.1 with
          | none => { s with system := { s.system with kernel := created.2.1 }
                             heap := created.2.2 }
          | some (tcb, stk) =>
              s.withTask created.2.1 created.2.2 tcb ⟨stk, roundedStack stackSize⟩
      else none
  | .delete tcb =>
      if canCall s.system.kernel && decide (tcb ∈ s.system.live) then
        (taskDeleteOnHeap s.system.kernel s.heap tcb (s.stackOf tcb).ptr).map fun deleted =>
          { s with
            system :=
              { kernel := deleted.2.1
                live := if deleted.1 = .ok then s.system.live.erase tcb else s.system.live }
            heap := deleted.2.2 }
      else none
  | .kernel action =>
      if action.leavesTasks then
        (step s.system action).map fun after => { s with system := after }
      else none
  | .alloc size =>
      (heapAlloc s.heap size).map fun result =>
        { s with heap := result.2, app := (result.1.map fun ptr => ⟨ptr, size⟩).toList ++ s.app }
  | .free allocation =>
      (heapFree s.heap (some allocation.ptr)).map fun heap =>
        { s with heap := heap, app := s.app.erase allocation }
  | .write size next => some { s with heap := { s.heap with size := size, next := next } }

/-- After `task_init`: the heap holds the control block of the idle task and nothing
else. -/
structure MemoryBooted (s : TaskMemory) : Prop where
  started : Started s.system
  pool : s.system.kernel.config.poolSize = heapPoolSize
  idle : heapAlloc heapInit tcbSize = some (s.system.kernel.idleTcb, s.heap)
  app : s.app = []

/-! ### First fit as a function of the free list -/

/-- The free blocks that are left when `need` bytes of the first block that has them
are taken. -/
def freeAfter (need : Nat) (free : List Block) : Option (List Block) :=
  match free.dropWhile (fun block => decide (block.size < need)) with
  | [] => none
  | chosen :: back =>
      some (leftFree (free.takeWhile fun block => decide (block.size < need)) back chosen need)

def freeForStack (free : List Block) : List Block :=
  (freeAfter (allocNeed tcbSize) free).getD free

/-- The heap can hold a control block and then a stack. -/
def HoldsBoth (free : List Block) (stackSize : Nat) : Prop :=
  ∃ left, freeAfter (allocNeed tcbSize) free = some left ∧
    ∃ block ∈ left, allocNeed stackSize ≤ block.size

/-- The rounded size and its header are 2^32 bytes, which is none. -/
def WrapsAway (stackSize : Nat) : Prop :=
  uint32Size ≤ stackSize + 15 ∧ stackSize + 8 ≤ uint32Size

section Requests

variable {heap : Heap} {live : List Allocation} {free : List Block} {need size : Nat}

theorem freeAfter_of_small (small : ∀ block ∈ free, block.size < need) :
    freeAfter need free = none := by
  have passed : ∀ block ∈ free, decide (block.size < need) = true := fun block member =>
    decide_eq_true (small block member)
  have dropped : free.dropWhile (fun block => decide (block.size < need)) = [] :=
    List.dropWhile_eq_nil_iff.mpr passed
  rw [freeAfter, dropped]

theorem freeAfter_of_split {front back : List Block} {chosen : Block}
    (small : ∀ block ∈ front, block.size < need) (fits : need ≤ chosen.size) :
    freeAfter need (front ++ chosen :: back) = some (leftFree front back chosen need) := by
  have passed : ∀ block ∈ front, decide (block.size < need) = true := fun block member =>
    decide_eq_true (small block member)
  have stops : ¬ chosen.size < need := Nat.not_lt.mpr fits
  have dropped : (front ++ chosen :: back).dropWhile (fun block => decide (block.size < need)) =
      chosen :: back := by
    rw [List.dropWhile_append_of_pos passed]
    simp [stops]
  have taken : (front ++ chosen :: back).takeWhile (fun block => decide (block.size < need)) =
      front := by
    rw [List.takeWhile_append_of_pos passed]
    simp [stops]
  rw [freeAfter, dropped, taken]

theorem Tiled.request (tiled : Tiled ⟨heap, live⟩ free) (positive : size ≠ 0)
    (unwrapped : size + 15 < uint32Size) :
    (∀ block ∈ free, block.size < allocNeed size) ∧
        freeAfter (allocNeed size) free = none ∧ heapAlloc heap size = some (none, heap) ∨
      ∃ ptr after rest, (∃ block ∈ free, allocNeed size ≤ block.size) ∧
        freeAfter (allocNeed size) free = some rest ∧
        heapAlloc heap size = some (some ptr, after) ∧
        (∀ allocation ∈ live, allocation.block after = allocation.block heap) ∧
        Tiled ⟨after, ⟨ptr, size⟩ :: live⟩ rest := by
  have need : allocTotal size = allocNeed size := allocTotal_eq unwrapped
  rcases tiled.alloc unwrapped with
    ⟨small, null⟩ | ⟨after, front, chosen, back, rfl, small, fits, returned, handed⟩
  · rw [need] at small
    have noFit := small.resolve_left positive
    exact Or.inl ⟨noFit, freeAfter_of_small noFit, null⟩
  · rw [need] at small fits
    have left := handed.tiled
    rw [need] at left
    exact Or.inr ⟨_, after, _, ⟨chosen, by simp, fits⟩, freeAfter_of_split small fits, returned,
      fun allocation member => block_congr (handed.others allocation member), left⟩

/-- The rounded size of the stack, which wraps to nothing at the very end, and the
bytes it takes of the heap, which wrap to nothing eight bytes before. -/
theorem roundedStack_cases {stackSize : Nat} (isSize : stackSize < uint32Size) :
    (stackSize + 15 < uint32Size ∧ stackSize ≤ roundedStack stackSize ∧
        roundedStack stackSize + 15 < uint32Size ∧
        allocNeed (roundedStack stackSize) = allocNeed stackSize) ∨
      (WrapsAway stackSize ∧ roundedStack stackSize ≠ 0 ∧
        allocTotal (roundedStack stackSize) = 0) ∨
      uint32Size < stackSize + 8 ∧ roundedStack stackSize = 0 := by
  unfold WrapsAway allocNeed allocTotal roundedStack headerSize
  unfold uint32Size at *
  omega

theorem Tiled.requestStack (tiled : Tiled ⟨heap, live⟩ free) {stackSize : Nat}
    (isSize : stackSize < uint32Size) (large : minStackSize ≤ stackSize)
    (found : WrapsAway stackSize → free = []) :
    (∀ block ∈ free, block.size < allocNeed stackSize) ∧
        heapAlloc heap (roundedStack stackSize) = some (none, heap) ∨
      ∃ ptr after rest, (∃ block ∈ free, allocNeed stackSize ≤ block.size) ∧
        stackSize ≤ roundedStack stackSize ∧ roundedStack stackSize + 15 < uint32Size ∧
        heapAlloc heap (roundedStack stackSize) = some (some ptr, after) ∧
        (∀ allocation ∈ live, allocation.block after = allocation.block heap) ∧
        Tiled ⟨after, ⟨ptr, roundedStack stackSize⟩ :: live⟩ rest := by
  unfold minStackSize at large
  rcases roundedStack_cases isSize with
    ⟨_, covers, unwrapped, sameNeed⟩ | ⟨wraps, _, _⟩ | ⟨oversized, none⟩
  · rcases tiled.request (by omega) unwrapped with
      ⟨small, _, null⟩ | ⟨ptr, after, rest, fits, _, returned, others, taken⟩
    · rw [sameNeed] at small
      exact Or.inl ⟨small, null⟩
    · rw [sameNeed] at fits
      exact Or.inr ⟨ptr, after, rest, fits, covers, unwrapped, returned, others, taken⟩
  · have empty := found wraps
    subst empty
    exact Or.inl ⟨fun block member => absurd member List.not_mem_nil,
      heapAlloc_of_empty _ tiled.lists.links⟩
  · refine Or.inl ⟨tiled.small_of_oversized ?_, ?_⟩
    · unfold heapPoolSize
      unfold uint32Size at oversized
      omega
    · rw [none, heapAlloc, if_pos (Or.inr rfl)]

end Requests

/-! ### Creating a task -/

/-- The kernel is coherent, and the blocks of its tasks are blocks of the heap. -/
structure MemoryCoherent (s : TaskMemory) : Prop where
  system : SystemCoherent s.system
  pool : s.system.kernel.config.poolSize = heapPoolSize
  tiled : ∃ free, Tiled ⟨s.heap, s.allocations⟩ free

structure Created (s : TaskMemory) (taskFunc : Option Nat) (priority stackSize tcb stk : Nat)
    (kernel : Kernel) (heap : Heap) : Prop where
  fresh : heapFresh s.system (some tcb) = true
  creation : taskCreate s.system.kernel taskFunc priority stackSize (some tcb) (some stk) =
    some (some tcb, kernel)
  covers : stackSize ≤ roundedStack stackSize
  others : ∀ allocation ∈ s.allocations, allocation.block heap = allocation.block s.heap
  tiled : ∃ free, Tiled
    ⟨heap, ⟨stk, roundedStack stackSize⟩ :: tcbOf tcb :: s.allocations⟩ free

section Creation

variable {s : TaskMemory} {free : List Block} {taskFunc : Option Nat}
variable {priority stackSize : Nat}

theorem tcbOf_mem {t : Addr} (member : t ∈ s.system.live ∨ some t = s.system.kernel.idleTcb) :
    tcbOf t ∈ s.allocations := by
  unfold TaskMemory.allocations
  apply List.mem_append_left
  apply List.mem_map_of_mem
  rw [List.mem_append, Option.mem_toList]
  exact member.symm.imp_left Eq.symm

theorem MemoryCoherent.fresh (holds : MemoryCoherent s) {tcb : Nat} {heap : Heap}
    (tiled : Tiled ⟨heap, tcbOf tcb :: s.allocations⟩ free) :
    heapFresh s.system (some tcb) = true := by
  have different : ∀ t, t ∈ s.system.live ∨ some t = s.system.kernel.idleTcb → t ≠ tcb := by
    intro t member same
    exact tiled.header_ne (tcbOf_mem member) (by rw [same])
  have member : tcbOf tcb ∈ tcbOf tcb :: s.allocations := List.mem_cons_self
  have within := (tiled.inside _ member).2
  have stop := tiled.stop_le (Tiled.mem_live member)
  simp only [heapFresh, Bool.and_eq_true, decide_eq_true_eq, holds.pool]
  refine ⟨⟨fun live => different tcb (Or.inl live) rfl,
    fun isIdle => different tcb (Or.inr isIdle) rfl⟩, ?_⟩
  have below : tcb < tcb + tcbSize := Nat.lt_add_of_pos_right (by decide)
  exact Nat.lt_of_lt_of_le below (Nat.le_trans within stop)

theorem heapFree_null (heap : Heap) : heapFree heap none = some heap := rfl

/-- The first checks of `task_create`. -/
def Accepted (kernel : Kernel) (taskFunc : Option Nat) (stackSize : Nat) : Prop :=
  taskFunc ≠ none ∧ minStackSize ≤ stackSize ∧
    kernel.taskRegistry.length < kernel.config.maxTasks

theorem taskCreateOnHeap_refused {kernel : Kernel} {heap : Heap}
    (refused : ¬ Accepted kernel taskFunc stackSize) :
    taskCreateOnHeap kernel heap taskFunc priority stackSize = some (none, kernel, heap) := by
  unfold taskCreateOnHeap
  split
  · rfl
  · rename_i checked
    rw [not_or, Nat.not_lt] at checked
    rw [if_pos]
    exact Nat.le_of_not_lt fun room => refused ⟨checked.1, checked.2, room⟩

theorem taskCreateOnHeap_accepted {kernel : Kernel} {heap first second : Heap}
    {tcb stk : Option Nat} (accepted : Accepted kernel taskFunc stackSize)
    (firstReturned : heapAlloc heap tcbSize = some (tcb, first))
    (secondReturned : heapAlloc first (roundedStack stackSize) = some (stk, second)) :
    taskCreateOnHeap kernel heap taskFunc priority stackSize =
      createWithBlocks kernel second taskFunc priority tcb stk := by
  obtain ⟨isFunction, large, room⟩ := accepted
  unfold taskCreateOnHeap
  rw [if_neg (by rw [not_or, Nat.not_lt]; exact ⟨isFunction, large⟩), if_neg (Nat.not_le.mpr room),
    firstReturned, Option.bind_some, secondReturned, Option.bind_some]

theorem createWithBlocks_installs {kernel : Kernel} {heap : Heap} {tcb stk : Nat}
    (accepted : Accepted kernel taskFunc stackSize) (coherent : Coherent kernel noWindow)
    (unregistered : tcb ∉ kernel.taskRegistry) :
    ∃ installed,
      createWithBlocks kernel heap taskFunc priority (some tcb) (some stk) =
        some (some (tcb, stk), installed, heap) ∧
      taskCreate kernel taskFunc priority stackSize (some tcb) (some stk) =
        some (some tcb, installed) := by
  obtain ⟨isFunction, large, room⟩ := accepted
  obtain ⟨function, rfl⟩ := Option.ne_none_iff_exists'.mp isFunction
  obtain ⟨added, addition, _⟩ :=
    @create_rings kernel tcb priority coherent.rings coherent.registry unregistered
  have install : installTask kernel tcb (some function) priority (prioBucket priority) =
      some (.ok, registryAdd added tcb) := by
    rw [installTask_eq, addition]
    rfl
  refine ⟨registryAdd added tcb, ?_, ?_⟩
  · simp only [createWithBlocks, install, Option.bind_some, ne_eq, not_true_eq_false, if_false]
  · unfold taskCreate
    rw [if_neg (by rw [not_or, Nat.not_lt]; exact ⟨isFunction, large⟩),
      if_neg (Nat.not_le.mpr room)]
    simp only [install, Option.map_some, ne_eq, not_true_eq_false, if_false]

/-- `task_create` creates a task where the heap has room for both blocks, and leaves
the kernel and the free bytes as they were where it has not. -/
theorem MemoryCoherent.create (holds : MemoryCoherent s)
    (tiled : Tiled ⟨s.heap, s.allocations⟩ free)
    (accepted : Accepted s.system.kernel taskFunc stackSize) (isSize : stackSize < uint32Size)
    (found : WrapsAway stackSize → freeForStack free = []) :
    (¬ HoldsBoth free stackSize ∧ ∃ heap newFree,
        taskCreateOnHeap s.system.kernel s.heap taskFunc priority stackSize =
          some (none, s.system.kernel, heap) ∧
        Tiled ⟨heap, s.allocations⟩ newFree ∧ ∀ place, count newFree place = count free place) ∨
      HoldsBoth free stackSize ∧ ∃ tcb stk kernel heap,
        taskCreateOnHeap s.system.kernel s.heap taskFunc priority stackSize =
          some (some (tcb, stk), kernel, heap) ∧
        Created s taskFunc priority stackSize tcb stk kernel heap := by
  have tcbFits : tcbSize + 15 < uint32Size := by decide
  rcases tiled.request (by decide) tcbFits with
    ⟨_, refused, null⟩ | ⟨tcb, first, left, _, granted, returned, others, taken⟩
  · rw [freeForStack, refused, Option.getD_none] at found
    have lacks : ¬ HoldsBoth free stackSize := by
      rintro ⟨left, granted, _⟩
      rw [refused] at granted
      cases granted
    refine Or.inl ⟨lacks, ?_⟩
    rcases tiled.requestStack isSize accepted.2.1 found with
      ⟨_, alsoNull⟩ | ⟨stk, second, _, _, _, unwrapped, stackReturned, _, _⟩
    · rw [taskCreateOnHeap_accepted accepted null alsoNull]
      exact ⟨s.heap, free, rfl, tiled, fun _ => rfl⟩
    · obtain ⟨after, newFree, freed, kept, same, _⟩ := tiled.round_trip unwrapped stackReturned
      refine ⟨after, newFree, ?_, kept, same⟩
      rw [taskCreateOnHeap_accepted accepted null stackReturned]
      simp only [createWithBlocks, freeBoth, heapFree_null, Option.bind_some, freed,
        Option.map_some]
  · rw [freeForStack, granted, Option.getD_some] at found
    rcases taken.requestStack isSize accepted.2.1 found with
      ⟨small, null⟩ | ⟨stk, second, rest, fits, covers, _, stackReturned, stillOthers, both⟩
    · refine Or.inl ⟨?_, ?_⟩
      · rintro ⟨other, alsoGranted, block, member, fits⟩
        rw [granted] at alsoGranted
        cases alsoGranted
        exact absurd fits (Nat.not_le.mpr (small block member))
      · obtain ⟨after, newFree, freed, kept, same, _⟩ := tiled.round_trip tcbFits returned
        refine ⟨after, newFree, ?_, kept, same⟩
        rw [taskCreateOnHeap_accepted accepted returned null]
        simp only [createWithBlocks, freeBoth, heapFree_null, Option.bind_some, freed,
          Option.map_some]
    · have fresh := holds.fresh taken
      obtain ⟨_, _, unregistered, _⟩ := holds.system.toLiveRegistry.fresh fresh
      obtain ⟨installed, created, creation⟩ :=
        createWithBlocks_installs accepted holds.system.coherent unregistered
      refine Or.inr ⟨⟨left, granted, fits⟩, tcb, stk, installed, second, ?_, fresh, creation,
        covers, ?_, rest, both⟩
      · rw [taskCreateOnHeap_accepted accepted returned stackReturned]
        exact created
      · intro allocation member
        exact (stillOthers allocation (List.mem_cons_of_mem _ member)).trans
          (others allocation member)

end Creation

/-! ### Coherence along a run -/

/-- What a run may do: a request whose size has wrapped finds no block, an unlock
leaves a RUNNING caller in its bucket, no owner of a mutex is deleted, the application
frees what it has allocated, and nobody writes outside the bytes that were handed
out. -/
def MemoryAllowed (s : TaskMemory) : MemoryAction → Prop
  | .create taskFunc _ stackSize => stackSize < uint32Size ∧ ∀ free, s.heap.FreeIs free →
      Accepted s.system.kernel taskFunc stackSize → WrapsAway stackSize → freeForStack free = []
  | .delete tcb => OwnsNoMutex s.system.kernel tcb
  | .kernel action => UnlockKeepsBucket s.system action
  | .alloc size => Unwrapped s.memory size
  | .free allocation => allocation ∈ s.app
  | .write size next => HeapAllowed s.memory (.write size next)

section Steps

variable {s after : TaskMemory} {free : List Block}

theorem allocations_perm {t : Addr} {rest : List Addr} (listed : s.system.live.Perm (t :: rest)) :
    s.allocations.Perm (s.stackOf t :: tcbOf t ::
      { s with system := { s.system with live := rest } }.allocations) := by
  unfold TaskMemory.allocations
  have tcbs := (listed.append_left s.system.kernel.idleTcb.toList).map tcbOf
  have frames := (listed.map s.stackOf).append_right s.app
  refine (tcbs.append frames).trans ?_
  rw [List.perm_iff_count]
  intro allocation
  simp only [List.map_append, List.map_cons, List.count_append, List.count_cons]
  omega

theorem Tiled.releaseBoth {heap : Heap} {first second : Allocation} {rest : List Allocation}
    (tiled : Tiled ⟨heap, first :: second :: rest⟩ free) :
    ∃ last newFree, freeBoth heap (some first.ptr) (some second.ptr) = some last ∧
      Tiled ⟨last, rest⟩ newFree := by
  obtain ⟨middle, firstFreed, firstKept⟩ := tiled.release
  obtain ⟨last, secondFreed, kept⟩ := firstKept.release
  refine ⟨last, _, ?_, kept⟩
  rw [freeBoth, firstFreed, Option.bind_some]
  exact secondFreed

theorem allocations_congr {other : TaskMemory}
    (idle : other.system.kernel.idleTcb = s.system.kernel.idleTcb)
    (live : other.system.live = s.system.live)
    (sameStacks : ∀ t ∈ s.system.live, other.stackOf t = s.stackOf t) (app : other.app = s.app) :
    other.allocations = s.allocations := by
  unfold TaskMemory.allocations
  rw [idle, live, app, List.map_congr_left sameStacks]

theorem withTask_perm {kernel : Kernel} {heap : Heap} {tcb : Addr} {stack : Allocation}
    (idle : kernel.idleTcb = s.system.kernel.idleTcb) (notLive : tcb ∉ s.system.live) :
    (s.withTask kernel heap tcb stack).allocations.Perm (stack :: tcbOf tcb :: s.allocations) := by
  have listed := @allocations_perm (s.withTask kernel heap tcb stack) tcb s.system.live
    (List.Perm.refl _)
  have isStack : (s.withTask kernel heap tcb stack).stackOf tcb = stack :=
    Function.update_self _ _ _
  rw [isStack] at listed
  refine listed.trans ?_
  rw [@allocations_congr s]
  · exact idle
  · rfl
  · intro t member
    have different : t ≠ tcb := fun same => notLive (same ▸ member)
    exact Function.update_of_ne different _ _
  · rfl

theorem app_perm {allocation : Allocation} {rest : List Allocation}
    (listed : s.app.Perm (allocation :: rest)) :
    s.allocations.Perm (allocation :: { s with app := rest }.allocations) := by
  unfold TaskMemory.allocations
  rw [List.perm_iff_count]
  intro counted
  have same := listed.count_eq counted
  simp only [List.count_append, List.count_cons] at same ⊢
  omega

theorem step_sameIdle {system next : System} {action : Action} (holds : SystemCoherent system)
    (bucket : UnlockKeepsBucket system action) (taken : step system action = some next) :
    next.kernel.idleTcb = system.kernel.idleTcb ∧ next.kernel.config = system.kernel.config := by
  by_cases leaves : action.leavesTasks = true
  · have same := (step_sameTasks holds bucket leaves taken).1
    exact ⟨same.idle, same.config⟩
  · cases step_moves taken with
    | stays => exact ⟨rfl, rfl⟩
    | creates _ addition =>
        have frame := schedulerAddTask_onlyRings (Function.update_self _ _ _) addition
        simp only
        rw [frame.core]
        exact ⟨rfl, rfl⟩
    | deletes _ _ _ detachment removal =>
        obtain ⟨reason, object, onMutex, fields, _⟩ := detachIfBlocked_core detachment
        have core := (schedulerRemoveTask_onlyRings removal).core.trans fields
        simp only
        rw [core]
        exact ⟨rfl, rfl⟩
    | calls _ _ => exact absurd rfl leaves
    | yields => exact absurd rfl leaves
    | ticks _ => exact absurd rfl leaves
    | selects _ => exact absurd rfl leaves
    | dispatches _ _ => exact absurd rfl leaves

theorem MemoryCoherent.of_step (holds : MemoryCoherent s) {action : Action}
    (bucket : UnlockKeepsBucket s.system action) (taken : step s.system action = some after.system)
    {live : List Allocation} (tiled : Tiled ⟨after.heap, live⟩ free)
    (listed : after.allocations.Perm live) : MemoryCoherent after := by
  obtain ⟨_, config⟩ := step_sameIdle holds.system bucket taken
  refine ⟨step_keeps holds.system bucket taken, ?_, free, tiled.perm listed.symm⟩
  rw [config]
  exact holds.pool

theorem MemoryCoherent.of_heap (holds : MemoryCoherent s) (same : after.system = s.system)
    (tiled : Tiled ⟨after.heap, after.allocations⟩ free) : MemoryCoherent after := by
  refine ⟨?_, ?_, free, tiled⟩
  · rw [same]
    exact holds.system
  · rw [same]
    exact holds.pool

theorem MemoryCoherent.create_cases (holds : MemoryCoherent s) {taskFunc : Option Nat}
    {priority stackSize : Nat} (allowed : MemoryAllowed s (.create taskFunc priority stackSize))
    (taken : memoryStep s (.create taskFunc priority stackSize) = some after) :
    (∃ free, Tiled ⟨after.heap, after.allocations⟩ free) ∧
      (after.system = s.system ∨ ∃ tcb stk,
        step s.system (.create taskFunc priority stackSize (some tcb) (some stk)) =
          some after.system) := by
  obtain ⟨isSize, found⟩ := allowed
  obtain ⟨free, tiled⟩ := holds.tiled
  simp only [memoryStep] at taken
  split at taken
  · rename_i can
    by_cases accepted : Accepted s.system.kernel taskFunc stackSize
    · rcases holds.create tiled accepted isSize (found free tiled.lists accepted) with
        ⟨_, heap, newFree, returned, kept, _⟩ | ⟨_, tcb, stk, kernel, heap, returned, created⟩
      · rw [returned] at taken
        cases taken
        exact ⟨⟨newFree, kept⟩, Or.inl rfl⟩
      · rw [returned] at taken
        cases taken
        obtain ⟨rest, both⟩ := created.tiled
        have notLive := (holds.system.toLiveRegistry.fresh created.fresh).1
        have stepped : step s.system (.create taskFunc priority stackSize (some tcb) (some stk)) =
            some { kernel := kernel, live := tcb :: s.system.live } := by
          simp only [step, can, created.fresh, created.creation, Bool.and_self, if_true,
            Option.map_some, Option.toList_some, List.singleton_append]
        have unlocks : UnlockKeepsBucket s.system
          (.create taskFunc priority stackSize (some tcb) (some stk)) := trivial
        have idle := (step_sameIdle holds.system unlocks stepped).1
        exact ⟨⟨rest, both.perm (withTask_perm idle notLive).symm⟩, Or.inr ⟨tcb, stk, stepped⟩⟩
    · rw [taskCreateOnHeap_refused accepted] at taken
      cases taken
      exact ⟨⟨free, tiled⟩, Or.inl rfl⟩
  · cases taken

theorem memoryStep_delete {tcb : Addr} (taken : memoryStep s (.delete tcb) = some after) :
    step s.system (.delete tcb) = some after.system ∧ after.stackOf = s.stackOf := by
  simp only [memoryStep] at taken
  split at taken
  · rename_i guards
    obtain ⟨⟨status, kernel, heap⟩, returned, rfl⟩ := Option.map_eq_some_iff.mp taken
    obtain ⟨⟨deleted, result⟩, deletion, finish⟩ := Option.bind_eq_some_iff.mp returned
    refine ⟨?_, rfl⟩
    simp only [step, guards, if_true, deletion, Option.map_some]
    simp only at finish
    split at finish
    · rename_i isOk
      obtain ⟨freed, _, same⟩ := Option.map_eq_some_iff.mp finish
      cases same
      rw [if_pos isOk, if_pos rfl]
    · rename_i notOk
      cases finish
      rw [if_neg notOk]
  · cases taken

theorem MemoryCoherent.delete_step (holds : MemoryCoherent s) {tcb : Addr}
    (taken : memoryStep s (.delete tcb) = some after) : MemoryCoherent after := by
  obtain ⟨free, tiled⟩ := holds.tiled
  obtain ⟨stepped, _⟩ := memoryStep_delete taken
  have unlocks : UnlockKeepsBucket s.system (.delete tcb) := trivial
  have idle := (step_sameIdle holds.system unlocks stepped).1
  simp only [memoryStep] at taken
  split at taken
  · rename_i guards
    obtain ⟨⟨status, kernel, heap⟩, returned, rfl⟩ := Option.map_eq_some_iff.mp taken
    obtain ⟨⟨deleted, result⟩, deletion, finish⟩ := Option.bind_eq_some_iff.mp returned
    simp only at finish
    split at finish
    · rename_i isOk
      obtain ⟨freed, both, same⟩ := Option.map_eq_some_iff.mp finish
      cases same
      rw [Bool.and_eq_true, decide_eq_true_eq] at guards
      obtain ⟨last, newFree, bothFreed, kept⟩ :=
        (tiled.perm (allocations_perm (List.perm_cons_erase guards.2))).releaseBoth
      cases both.symm.trans bothFreed
      exact holds.of_step unlocks stepped kept
        (List.Perm.of_eq (allocations_congr idle rfl (fun _ _ => rfl) rfl))
    · rename_i notOk
      cases finish
      rw [if_neg notOk] at stepped ⊢
      exact holds.of_step unlocks stepped tiled
        (List.Perm.of_eq (allocations_congr idle rfl (fun _ _ => rfl) rfl))
  · cases taken

theorem MemoryCoherent.step (holds : MemoryCoherent s) {action : MemoryAction}
    (allowed : MemoryAllowed s action) (taken : memoryStep s action = some after) :
    MemoryCoherent after := by
  obtain ⟨free, tiled⟩ := holds.tiled
  cases action with
  | create taskFunc priority stackSize =>
      obtain ⟨⟨newFree, kept⟩, same | ⟨tcb, stk, stepped⟩⟩ := holds.create_cases allowed taken
      · exact holds.of_heap same kept
      · have unlocks : UnlockKeepsBucket s.system
          (.create taskFunc priority stackSize (some tcb) (some stk)) := trivial
        exact holds.of_step unlocks stepped kept (List.Perm.refl _)
  | delete tcb => exact holds.delete_step taken
  | kernel action =>
      simp only [memoryStep] at taken
      split at taken
      · rename_i leaves
        obtain ⟨next, stepped, rfl⟩ := Option.map_eq_some_iff.mp taken
        obtain ⟨same, live⟩ := step_sameTasks holds.system allowed leaves stepped
        exact holds.of_step allowed stepped tiled
          (List.Perm.of_eq (allocations_congr same.idle live (fun _ _ => rfl) rfl))
      · cases taken
  | alloc size =>
      obtain ⟨⟨ptr, heap⟩, returned, rfl⟩ := Option.map_eq_some_iff.mp taken
      obtain ⟨result, newFree, stepped, kept⟩ := tiled.alloc_step allowed
      simp only [heapStep, returned, Option.map_some] at stepped
      cases ptr with
      | none =>
          cases stepped
          exact holds.of_heap rfl kept
      | some ptr =>
          cases stepped
          have listed := @app_perm { s with heap := heap, app := ⟨ptr, size⟩ :: s.app }
            ⟨ptr, size⟩ s.app (List.Perm.refl _)
          exact holds.of_heap rfl (kept.perm listed.symm)
  | free allocation =>
      obtain ⟨heap, returned, rfl⟩ := Option.map_eq_some_iff.mp taken
      obtain ⟨result, freed, kept⟩ := (tiled.perm (app_perm (List.perm_cons_erase allowed))).release
      cases returned.symm.trans freed
      exact holds.of_heap rfl kept
  | write size next =>
      cases taken
      exact holds.of_heap rfl (tiled.write allowed)

/-- A step of the memory is one of the kernel, or leaves the kernel as it is. -/
theorem MemoryCoherent.kernelStep (holds : MemoryCoherent s) {action : MemoryAction}
    (allowed : MemoryAllowed s action) (taken : memoryStep s action = some after) :
    after.system = s.system ∨ ∃ act, UnlockKeepsBucket s.system act ∧
      DeletesNoOwner s.system act ∧ (∀ call, act = .call call → action = .kernel act) ∧
      MicrokernelRtos.step s.system act = some after.system := by
  cases action with
  | create taskFunc priority stackSize =>
      apply (holds.create_cases allowed taken).2.imp_right
      rintro ⟨tcb, stk, stepped⟩
      refine ⟨.create taskFunc priority stackSize (some tcb) (some stk), trivial, trivial, ?_,
        stepped⟩
      intro call isCall
      cases isCall
  | delete tcb =>
      refine Or.inr ⟨.delete tcb, trivial, allowed, ?_, (memoryStep_delete taken).1⟩
      intro call isCall
      cases isCall
  | kernel action =>
      simp only [memoryStep] at taken
      split at taken
      · rename_i leaves
        obtain ⟨next, stepped, rfl⟩ := Option.map_eq_some_iff.mp taken
        refine Or.inr ⟨action, allowed, ?_, fun _ _ => rfl, stepped⟩
        cases action with
        | delete tcb => cases leaves
        | _ => exact trivial
      · cases taken
  | alloc size =>
      obtain ⟨result, _, rfl⟩ := Option.map_eq_some_iff.mp taken
      exact Or.inl rfl
  | free allocation =>
      obtain ⟨heap, _, rfl⟩ := Option.map_eq_some_iff.mp taken
      exact Or.inl rfl
  | write size next =>
      cases taken
      exact Or.inl rfl

theorem MemoryBooted.memoryCoherent (booted : MemoryBooted s) : MemoryCoherent s := by
  rcases tiled_init.request (by decide) (show tcbSize + 15 < uint32Size by decide) with
    ⟨_, _, null⟩ | ⟨idle, heap, rest, _, _, returned, _, kept⟩
  · have granted : (heapAlloc heapInit tcbSize).map (fun result => result.1) = some (some 8) := by
      decide +kernel
    rw [null] at granted
    cases granted
  · have isIdle := booted.idle
    rw [returned] at isIdle
    obtain ⟨idleIs, heapIs⟩ := Prod.mk.inj (Option.some.inj isIdle)
    refine ⟨booted.started.systemCoherent, booted.pool, rest, ?_⟩
    have listed : s.allocations = [tcbOf idle] := by
      rw [TaskMemory.allocations, ← idleIs, booted.started.2, booted.app]
      rfl
    rw [listed, ← heapIs]
    exact kept

end Steps

section Reached

variable {s : TaskMemory}

theorem Reachable.memoryCoherent (reached : Reachable MemoryBooted memoryStep MemoryAllowed s) :
    MemoryCoherent s :=
  Transition.Reachable.invariant MemoryCoherent (fun _ booted => booted.memoryCoherent)
    (fun _ _ _ holds allowed taken => holds.step allowed taken) reached

/-- A run of the memory is one of the kernel in which no owner of a mutex is deleted. -/
theorem Reachable.kernelRun (reached : Reachable MemoryBooted memoryStep MemoryAllowed s) :
    Reachable Started step (fun s a => UnlockKeepsBucket s a ∧ DeletesNoOwner s a) s.system := by
  induction reached with
  | initial booted => exact .initial booted.started
  | next before allowed taken ih =>
      have holds := Reachable.memoryCoherent before
      rcases holds.kernelStep allowed taken with same | ⟨act, bucket, spares, _, stepped⟩
      · rw [same]
        exact ih
      · exact ih.next ⟨bucket, spares⟩ stepped

/-- Whatever leads the kernel to a task leads it to a control block that is allocated. -/
structure ReferencesLive (s : TaskMemory) : Prop where
  ring : ∀ bucket t, Reaches s.system.kernel.nextReady (s.system.kernel.readyHead bucket) t →
    tcbOf t ∈ s.allocations
  registry : ∀ t ∈ s.system.kernel.taskRegistry, tcbOf t ∈ s.allocations
  waitList : ∀ list t,
    Reaches s.system.kernel.mutexWaitNext (s.system.kernel.waitHead list) t →
      tcbOf t ∈ s.allocations
  owner : ∀ m t, (s.system.kernel.mutex m).owner = some t → tcbOf t ∈ s.allocations
  current : ∀ t, s.system.kernel.currentTcb = some t → tcbOf t ∈ s.allocations

theorem MemoryCoherent.referencesLive (holds : MemoryCoherent s)
    (owners : OwnersListed s.system.kernel) : ReferencesLive s := by
  obtain ⟨⟨rings, rung⟩, waits, waiting⟩ := holds.system.coherent
  have listed : ∀ t ∈ s.system.kernel.taskRegistry, tcbOf t ∈ s.allocations := by
    intro t member
    apply tcbOf_mem
    exact (holds.system.registry t).mp member
  refine ⟨?_, listed, ?_, ?_, ?_⟩
  · intro bucket t reached
    have member := ((rung.lists.family.ring bucket).reaches_iff t).mp reached
    exact listed t ((rung.shape.member bucket t).mp member).1
  · intro list t reached
    have member := ((waiting.lists.queue list).reaches_iff t).mp reached
    exact listed t ((waiting.shape.member list t).mp member).1
  · intro m t owned
    exact listed t (owners m t owned)
  · intro t isCurrent
    exact listed t (waiting.registry.current t isCurrent)

theorem referencesLive_of_reachable
    (reached : Reachable MemoryBooted memoryStep MemoryAllowed s) : ReferencesLive s :=
  (Reachable.memoryCoherent reached).referencesLive
    (ownersListed_of_reachable (Reachable.kernelRun reached)).2

end Reached

/-! ### A run to start from -/

def bootedMemory : TaskMemory where
  system := { kernel := (taskInit resetKernel (some 8)).elim resetKernel Prod.snd, live := [] }
  heap := (heapAlloc heapInit tcbSize).elim heapInit Prod.snd
  stackOf := fun _ => ⟨0, 0⟩
  app := []

theorem memoryBooted_bootedMemory : MemoryBooted bootedMemory where
  started := ⟨⟨resetKernel, 8, initialised_resetKernel, rfl, by decide, rfl⟩, rfl⟩
  pool := rfl
  idle := by
    have granted : (heapAlloc heapInit tcbSize).map Prod.fst = some (some 8) := by decide +kernel
    obtain ⟨⟨ptr, heap⟩, returned, isIdle⟩ := Option.map_eq_some_iff.mp granted
    have first : ptr = some 8 := isIdle
    subst first
    have heapIs : bootedMemory.heap = heap := by
      unfold bootedMemory
      rw [returned]
      rfl
    rw [returned, heapIs]
    rfl
  app := rfl

def memoryCheck (s : TaskMemory) : MemoryAction → Bool
  | .create _ _ stackSize => decide (stackSize + 15 < uint32Size)
  | .delete _ => false
  | .kernel action => decide (UnlockKeepsBucket s.system action)
  | .alloc size => decide (size + 15 < uint32Size)
  | .free allocation => decide (allocation ∈ s.app)
  | .write _ _ => false

theorem memoryAllowed_of_check (s : TaskMemory) (action : MemoryAction)
    (checked : memoryCheck s action = true) : MemoryAllowed s action := by
  cases action with
  | create taskFunc priority stackSize =>
      have fits : stackSize + 15 < uint32Size := of_decide_eq_true checked
      refine ⟨by omega, fun free _ _ wraps => ?_⟩
      exact absurd wraps.1 (Nat.not_le.mpr fits)
  | delete _ => cases checked
  | kernel action =>
      have keeps : UnlockKeepsBucket s.system action := of_decide_eq_true checked
      exact keeps
  | alloc size =>
      have fits : size + 15 < uint32Size := of_decide_eq_true checked
      exact Or.inl fits
  | free allocation =>
      have member : allocation ∈ s.app := of_decide_eq_true checked
      exact member
  | write _ _ => cases checked

/-- Until a mutex is locked any task may be deleted. -/
def locklessCheck (s : TaskMemory) : MemoryAction → Bool
  | .delete _ => true
  | .kernel (.call (.lock _ _)) => false
  | action => memoryCheck s action

theorem memoryAllowed_of_lockless (s : TaskMemory) (action : MemoryAction)
    (unowned : ∀ m, (s.system.kernel.mutex m).owner = none)
    (checked : locklessCheck s action = true) : MemoryAllowed s action := by
  cases action with
  | delete tcb =>
      intro m owned
      rw [unowned m] at owned
      cases owned
  | kernel action =>
      unfold locklessCheck at checked
      split at checked
      · rename_i isDelete
        cases isDelete
      · cases checked
      · exact memoryAllowed_of_check s _ checked
  | create taskFunc priority stackSize => exact memoryAllowed_of_check s _ checked
  | alloc size => exact memoryAllowed_of_check s _ checked
  | free allocation => exact memoryAllowed_of_check s _ checked
  | write size next => exact memoryAllowed_of_check s _ checked

theorem Reachable.of_lockless {s : TaskMemory}
    (reached : Reachable MemoryBooted memoryStep (fun s a => locklessCheck s a = true) s) :
    Reachable MemoryBooted memoryStep MemoryAllowed s := by
  apply reached.mono_of_invariant fun s =>
    MemoryCoherent s ∧ ∀ m, (s.system.kernel.mutex m).owner = none
  · intro s booted
    exact ⟨booted.memoryCoherent, booted.started.unowned⟩
  · intro s action after ⟨holds, unowned⟩ checked taken
    have allowed := memoryAllowed_of_lockless s action unowned checked
    refine ⟨holds.step allowed taken, ?_⟩
    rcases holds.kernelStep allowed taken with same | ⟨act, _, _, isKernel, stepped⟩
    · rw [same]
      exact unowned
    · intro m
      apply Option.eq_none_iff_forall_ne_some.mpr
      intro owner owned
      rcases step_owner holds.system stepped owned with already | ⟨_, locks⟩
      · rw [unowned m] at already
        cases already
      · obtain ⟨ticks, isLock⟩ := locks (unowned m)
        rw [isKernel _ isLock, isLock] at checked
        cases checked
  · intro s action ⟨_, unowned⟩ checked
    exact memoryAllowed_of_lockless s action unowned checked

end MicrokernelRtos
