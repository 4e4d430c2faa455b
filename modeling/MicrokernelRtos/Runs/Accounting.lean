/-
Where the bytes of the pool are.

The blocks tile the pool, so that their sizes add up to it.  A block in use has the
bytes that were asked for, rounded, behind a header of eight bytes.  It has eight bytes
more when those were what the split had left over: they are too few for a block of
their own, and come back with the block.
-/

import MicrokernelRtos.Runs.TaskMemory

namespace MicrokernelRtos

open Linked Tiling Transition

/-- The block has what the request takes, or eight bytes more. -/
def Snug (heap : Heap) (allocation : Allocation) : Prop :=
  (allocation.block heap).size = allocNeed allocation.requested ∨
    (allocation.block heap).size = allocNeed allocation.requested + 8

/-- The blocks tile the pool, the first of them as it was cut off the pool. -/
structure Accounted (first : Allocation) (heap : Heap) (live : List Allocation) : Prop where
  tiled : ∃ free, Tiled ⟨heap, first :: live⟩ free
  exact : (first.block heap).size = allocNeed first.requested
  snug : ∀ allocation ∈ live, Snug heap allocation

section Calls

variable {heap after : Heap} {first : Allocation} {live rest : List Allocation}
variable {allocation : Allocation} {free : List Block} {size : Nat} {ptr : Option Nat}

theorem Snug.congr (snug : Snug heap allocation)
    (same : allocation.block after = allocation.block heap) : Snug after allocation := by
  unfold Snug
  rw [same]
  exact snug

theorem Tiled.free_others (tiled : Tiled ⟨heap, allocation :: live⟩ free)
    (returned : heapFree heap (some allocation.ptr) = some after) :
    ∀ other ∈ live, other.block after = other.block heap := by
  intro other member
  have held : allocation ∈ allocation :: live := List.mem_cons_self
  have every : ∀ block ∈ allocation.block heap :: free, block.stop < uint32Size := by
    intro block listed
    rcases List.mem_cons.mp listed with isFreed | older
    · rw [isFreed]
      exact tiled.stop_lt (Tiled.mem_live held)
    · exact tiled.stop_lt (Tiled.mem_free older)
  have prepended : (prependFree heap (allocation.block heap).start).FreeIs
      (allocation.block heap :: free) :=
    prependFree_spec tiled.lists rfl (tiled.live_notMem held)
  obtain ⟨joined, isJoined, _, frame⟩ := coalesceForward_spec prepended tiled.length_lt every
  have ready : heap.heapReady = true := tiled.ready
  have isAfter : heapFree heap (some allocation.ptr) = some joined := by
    unfold heapFree
    simp only
    rw [if_neg (by simp [ready])]
    exact isJoined
  cases returned.symm.trans isAfter
  apply block_congr
  apply (frame.2 (other.ptr - headerSize) _).1
  rw [List.map_cons, List.mem_cons, not_or]
  exact ⟨tiled.header_ne member, tiled.live_notMem (List.mem_cons_of_mem allocation member)⟩

/-- A block that was not split has at most eight bytes more than were needed. -/
theorem takenFrom_size {chosen : Block} {need : Nat} (fits : need ≤ chosen.size)
    (aligned : 8 ∣ chosen.size) (needAligned : 8 ∣ need) :
    (takenFrom chosen need).size = need ∨ (takenFrom chosen need).size = need + 8 := by
  unfold takenFrom headerSize
  simp only
  split
  · exact Or.inl rfl
  · omega

theorem Tiled.alloc_snug (tiled : Tiled ⟨heap, live⟩ free) (allocation : Allocation)
    (unwrapped : size + 15 < uint32Size)
    (returned : heapAlloc heap size = some (some allocation.ptr, after))
    (asked : allocation.requested = size) :
    Snug after allocation ∧ (∀ other ∈ live, other.block after = other.block heap) ∧
      ∃ newFree, Tiled ⟨after, allocation :: live⟩ newFree := by
  rcases tiled.alloc unwrapped with
    ⟨_, null⟩ | ⟨found, front, chosen, back, listed, _, fits, isFound, handed⟩
  · rw [null] at returned
    cases returned
  · obtain ⟨isPtr, isAfter⟩ := Prod.mk.inj (Option.some.inj (returned.symm.trans isFound))
    subst isAfter
    have isNew : allocation = ⟨chosen.start + headerSize, size⟩ := by
      cases allocation
      cases asked
      cases isPtr
      rfl
    have block : allocation.block after = takenFrom chosen (allocTotal size) := by
      rw [isNew, ← handed.block, Allocation.block, Nat.add_sub_cancel]
    have sound := tiled.sound chosen (Tiled.mem_free (by rw [listed]; simp))
    have total : allocTotal size = allocNeed size := allocTotal_eq unwrapped
    have aligned : 8 ∣ allocNeed size := by
      unfold allocNeed headerSize
      omega
    refine ⟨?_, fun other member => block_congr (handed.others other member), ?_⟩
    · rw [Snug, block, asked, ← total]
      rw [← total] at aligned
      exact takenFrom_size fits sound.2.1 aligned
    · rw [isNew]
      exact ⟨_, handed.tiled⟩

theorem Accounted.perm (accounted : Accounted first heap live) (same : live.Perm rest) :
    Accounted first heap rest := by
  obtain ⟨free, tiled⟩ := accounted.tiled
  refine ⟨⟨free, tiled.perm (same.cons first)⟩, accounted.exact, fun allocation member => ?_⟩
  exact accounted.snug allocation (same.mem_iff.mpr member)

theorem Accounted.alloc (accounted : Accounted first heap live)
    (unwrapped : size + 15 < uint32Size)
    (returned : heapAlloc heap size = some (ptr, after)) :
    Accounted first after ((ptr.map fun addr => ⟨addr, size⟩).toList ++ live) := by
  obtain ⟨free, tiled⟩ := accounted.tiled
  cases ptr with
  | none =>
      rcases tiled.alloc unwrapped with ⟨_, null⟩ | ⟨_, _, _, _, _, _, _, found, _⟩
      · rw [null] at returned
        cases returned
        exact accounted
      · rw [found] at returned
        cases returned
  | some addr =>
      obtain ⟨snug, others, newFree, taken⟩ :=
        tiled.alloc_snug ⟨addr, size⟩ unwrapped returned rfl
      refine ⟨⟨newFree, taken.perm (List.Perm.swap first ⟨addr, size⟩ live)⟩, ?_, ?_⟩
      · rw [others first List.mem_cons_self]
        exact accounted.exact
      · intro allocation member
        rcases List.mem_cons.mp member with isNew | older
        · rw [isNew]
          exact snug
        · apply (accounted.snug allocation older).congr
          exact others allocation (List.mem_cons_of_mem first older)

theorem Accounted.release (accounted : Accounted first heap live)
    (listed : live.Perm (allocation :: rest))
    (returned : heapFree heap (some allocation.ptr) = some after) :
    Accounted first after rest := by
  have arranged := accounted.perm listed
  obtain ⟨free, tiled⟩ := arranged.tiled
  have inFront := tiled.perm (List.Perm.swap allocation first rest)
  obtain ⟨released, isReleased, kept⟩ := inFront.release
  cases returned.symm.trans isReleased
  have others := inFront.free_others returned
  refine ⟨⟨_, kept⟩, ?_, ?_⟩
  · rw [others first List.mem_cons_self]
    exact arranged.exact
  · intro other member
    apply (arranged.snug other (List.mem_cons_of_mem allocation member)).congr
    exact others other (List.mem_cons_of_mem first member)

theorem Accounted.sum (accounted : Accounted first heap live) :
    ∃ free, heap.FreeIs free ∧
      totalSize free + allocNeed first.requested +
        totalSize (live.map (Allocation.block heap)) = heapPoolSize := by
  obtain ⟨free, tiled⟩ := accounted.tiled
  refine ⟨free, tiled.lists, ?_⟩
  have sum := tiled.tiles.totalSize_eq tiled.positive
  rw [totalSize_append, List.map_cons] at sum
  have split : totalSize (first.block heap :: live.map (Allocation.block heap)) =
      (first.block heap).size + totalSize (live.map (Allocation.block heap)) := rfl
  rw [split, accounted.exact] at sum
  omega

theorem Accounted.write (accounted : Accounted first heap live) {sizes : Nat → Nat}
    {next : Nat → Option Nat} (allowed : HeapAllowed ⟨heap, first :: live⟩ (.write sizes next)) :
    Accounted first { heap with size := sizes, next := next } live := by
  obtain ⟨free, tiled⟩ := accounted.tiled
  have others : ∀ allocation ∈ first :: live,
      allocation.block { heap with size := sizes, next := next } = allocation.block heap := by
    intro allocation member
    apply block_congr
    exact (allowed _ (tiled.notGiven (Tiled.mem_live member))).1
  refine ⟨⟨free, tiled.write allowed⟩, ?_, ?_⟩
  · rw [others first List.mem_cons_self]
    exact accounted.exact
  · intro allocation member
    apply (accounted.snug allocation member).congr
    exact others allocation (List.mem_cons_of_mem first member)

end Calls

/-! ### The calls of the kernel -/

section Kernel

variable {heap second : Heap} {first : Allocation} {live : List Allocation} {free : List Block}
variable {stackSize : Nat} {tcb stk : Option Nat}

def granted (stackSize : Nat) (tcb stk : Option Nat) : List Allocation :=
  (stk.map fun addr => ⟨addr, roundedStack stackSize⟩).toList ++ (tcb.map tcbOf).toList

theorem Accounted.freeBoth {accounts : List Allocation}
    (accounted : Accounted first heap accounts) (one other : Option Allocation)
    (listed : accounts.Perm (one.toList ++ (other.toList ++ live)))
    (returned : freeBoth heap (one.map Allocation.ptr) (other.map Allocation.ptr) =
      some second) : Accounted first second live := by
  obtain ⟨middle, oneFreed, otherFreed⟩ := Option.bind_eq_some_iff.mp returned
  have half : Accounted first middle (other.toList ++ live) := by
    cases one with
    | none =>
        cases oneFreed
        exact accounted.perm listed
    | some allocation => exact accounted.release listed oneFreed
  cases other with
  | none =>
      cases otherFreed
      exact half
  | some allocation => exact half.release (List.Perm.refl _) otherFreed

theorem Accounted.requestStack (accounted : Accounted first heap live)
    (tiled : Tiled ⟨heap, first :: live⟩ free) (isSize : stackSize < uint32Size)
    (large : minStackSize ≤ stackSize) (found : WrapsAway stackSize → free = [])
    (returned : heapAlloc heap (roundedStack stackSize) = some (stk, second)) :
    Accounted first second
      ((stk.map fun addr => ⟨addr, roundedStack stackSize⟩).toList ++ live) := by
  rcases tiled.requestStack isSize large found with
    ⟨_, null⟩ | ⟨addr, after, _, _, _, unwrapped, _, _, _⟩
  · rw [null] at returned
    cases returned
    exact accounted
  · exact accounted.alloc unwrapped returned

theorem Accounted.createWithBlocks {kernel installed : Kernel} {taskFunc : Option Nat}
    {priority : Nat} {result : Option (Addr × Nat)}
    (accounted : Accounted first heap (granted stackSize tcb stk ++ live))
    (created : createWithBlocks kernel heap taskFunc priority tcb stk =
      some (result, installed, second)) :
    Accounted first second
      (granted stackSize (result.map Prod.fst) (result.map Prod.snd) ++ live) := by
  have stackFirst : (granted stackSize tcb stk ++ live).Perm
      ((stk.map fun addr => ⟨addr, roundedStack stackSize⟩).toList ++
        ((tcb.map tcbOf).toList ++ live)) := by
    rw [granted, List.append_assoc]
  have tcbFirst : (granted stackSize tcb stk ++ live).Perm
      ((tcb.map tcbOf).toList ++
        ((stk.map fun addr => ⟨addr, roundedStack stackSize⟩).toList ++ live)) := by
    rw [granted, ← List.append_assoc]
    exact List.Perm.append_right live List.perm_append_comm
  cases tcb with
  | none =>
      cases stk with
      | none =>
          cases created
          exact accounted
      | some stk =>
          obtain ⟨freed, both, same⟩ := Option.map_eq_some_iff.mp created
          cases same
          exact accounted.freeBoth none (some _) tcbFirst both
  | some tcb =>
      cases stk with
      | none =>
          obtain ⟨freed, both, same⟩ := Option.map_eq_some_iff.mp created
          cases same
          exact accounted.freeBoth (some _) none tcbFirst both
      | some stk =>
          obtain ⟨⟨status, last⟩, _, finish⟩ := Option.bind_eq_some_iff.mp created
          simp only at finish
          split at finish
          · obtain ⟨freed, both, same⟩ := Option.map_eq_some_iff.mp finish
            cases same
            exact accounted.freeBoth (some _) (some _) stackFirst both
          · cases finish
            exact accounted

theorem Accounted.create {kernel installed : Kernel} {taskFunc : Option Nat} {priority : Nat}
    {result : Option (Addr × Nat)} (accounted : Accounted first heap live)
    (tiled : Tiled ⟨heap, first :: live⟩ free) (isSize : stackSize < uint32Size)
    (found : Accepted kernel taskFunc stackSize → WrapsAway stackSize → freeForStack free = [])
    (created : taskCreateOnHeap kernel heap taskFunc priority stackSize =
      some (result, installed, second)) :
    Accounted first second
      (granted stackSize (result.map Prod.fst) (result.map Prod.snd) ++ live) := by
  by_cases accepted : Accepted kernel taskFunc stackSize
  · have tcbFits : tcbSize + 15 < uint32Size := by decide
    have requests : ∃ tcb middle left, heapAlloc heap tcbSize = some (tcb, middle) ∧
        freeForStack free = left ∧
        Tiled ⟨middle, first :: ((tcb.map tcbOf).toList ++ live)⟩ left := by
      rcases tiled.request (by decide) tcbFits with
        ⟨_, refused, null⟩ | ⟨tcb, middle, left, _, isLeft, returned, _, taken⟩
      · exact ⟨none, heap, free, null, by rw [freeForStack, refused]; rfl, tiled⟩
      · refine ⟨some tcb, middle, left, returned, by rw [freeForStack, isLeft]; rfl, ?_⟩
        exact taken.perm (List.Perm.swap first (tcbOf tcb) live)
    obtain ⟨tcb, middle, left, returned, isLeft, taken⟩ := requests
    have half := accounted.alloc tcbFits returned
    have isGranted : (tcb.map fun addr => (⟨addr, tcbSize⟩ : Allocation)) = tcb.map tcbOf := rfl
    rw [isGranted] at half
    have wrapped := found accepted
    rw [isLeft] at wrapped
    have answered : ∃ stk last, heapAlloc middle (roundedStack stackSize) = some (stk, last) := by
      rcases taken.requestStack isSize accepted.2.1 wrapped with
        ⟨_, null⟩ | ⟨stk, last, _, _, _, _, stackReturned, _⟩
      · exact ⟨none, middle, null⟩
      · exact ⟨some stk, last, stackReturned⟩
    obtain ⟨stk, last, stackReturned⟩ := answered
    have whole := half.requestStack taken isSize accepted.2.1 wrapped stackReturned
    rw [taskCreateOnHeap_accepted accepted returned stackReturned] at created
    rw [← List.append_assoc] at whole
    exact whole.createWithBlocks created
  · rw [taskCreateOnHeap_refused accepted] at created
    cases created
    exact accounted

end Kernel

/-! ### Accounts along a run -/

/-- What is allocated besides the control block of the idle task. -/
def TaskMemory.held (s : TaskMemory) : List Allocation :=
  s.system.live.map tcbOf ++ (s.system.live.map s.stackOf ++ s.app)

def KeepsAccounts (s : TaskMemory) : Prop :=
  ∃ idle, s.system.kernel.idleTcb = some idle ∧ Accounted (tcbOf idle) s.heap s.held

section Steps

variable {s after : TaskMemory} {idle : Addr} {taskFunc : Option Nat}
variable {priority stackSize : Nat}

theorem allocations_eq (isIdle : s.system.kernel.idleTcb = some idle) :
    s.allocations = tcbOf idle :: s.held := by
  unfold TaskMemory.allocations
  rw [isIdle]
  rfl

theorem held_perm {other : TaskMemory} {extra : List Allocation}
    (isIdle : s.system.kernel.idleTcb = some idle)
    (otherIdle : other.system.kernel.idleTcb = some idle)
    (same : s.allocations.Perm (extra ++ other.allocations)) :
    s.held.Perm (extra ++ other.held) := by
  rw [allocations_eq isIdle, allocations_eq otherIdle] at same
  exact (same.trans List.perm_middle).cons_inv

theorem create_sameIdle (holds : MemoryCoherent s)
    (allowed : MemoryAllowed s (.create taskFunc priority stackSize))
    (can : canCall s.system.kernel = true) {result : Option (Addr × Nat)} {kernel : Kernel}
    {heap : Heap}
    (created : taskCreateOnHeap s.system.kernel s.heap taskFunc priority stackSize =
      some (result, kernel, heap)) :
    kernel.idleTcb = s.system.kernel.idleTcb ∧
      ∀ tcb stk, result = some (tcb, stk) → tcb ∉ s.system.live := by
  obtain ⟨isSize, found⟩ := allowed
  obtain ⟨free, tiled⟩ := holds.tiled
  by_cases accepted : Accepted s.system.kernel taskFunc stackSize
  · rcases @MemoryCoherent.create s free taskFunc priority stackSize holds tiled accepted isSize
        (found free tiled.lists accepted) with
      ⟨_, _, _, returned, _, _⟩ | ⟨_, tcb, stk, installed, _, returned, creates⟩
    · cases returned.symm.trans created
      exact ⟨rfl, fun _ _ impossible => by cases impossible⟩
    · cases returned.symm.trans created
      have stepped : step s.system (.create taskFunc priority stackSize (some tcb) (some stk)) =
          some { kernel := kernel, live := tcb :: s.system.live } := by
        simp only [step, can, creates.fresh, creates.creation, Bool.and_self, if_true,
          Option.map_some, Option.toList_some, List.singleton_append]
      have unlocks : UnlockKeepsBucket s.system
        (.create taskFunc priority stackSize (some tcb) (some stk)) := trivial
      constructor
      · exact (step_sameIdle holds.system unlocks stepped).1
      · intro other frame same
        cases same
        exact (holds.system.toLiveRegistry.fresh creates.fresh).1
  · rw [taskCreateOnHeap_refused accepted] at created
    cases created
    exact ⟨rfl, fun _ _ impossible => by cases impossible⟩

theorem KeepsAccounts.create_step (accounts : KeepsAccounts s) (holds : MemoryCoherent s)
    (allowed : MemoryAllowed s (.create taskFunc priority stackSize))
    (taken : memoryStep s (.create taskFunc priority stackSize) = some after) :
    KeepsAccounts after := by
  obtain ⟨idle, isIdle, accounted⟩ := accounts
  obtain ⟨free, tiled⟩ := accounted.tiled
  simp only [memoryStep] at taken
  split at taken
  · rename_i can
    obtain ⟨⟨result, kernel, heap⟩, created, rfl⟩ := Option.map_eq_some_iff.mp taken
    obtain ⟨sameIdle, notLive⟩ := create_sameIdle holds allowed can created
    have stillIdle : kernel.idleTcb = some idle := sameIdle.trans isIdle
    have kept := accounted.create tiled allowed.1 (allowed.2 free tiled.lists) created
    cases result with
    | none => exact ⟨idle, stillIdle, kept⟩
    | some blocks =>
        have listed := @withTask_perm s kernel heap blocks.1 ⟨blocks.2, roundedStack stackSize⟩
          sameIdle (notLive blocks.1 blocks.2 rfl)
        have held := @held_perm _ idle s (granted stackSize (some blocks.1) (some blocks.2))
          stillIdle isIdle listed
        exact ⟨idle, stillIdle, kept.perm held.symm⟩
  · cases taken

theorem KeepsAccounts.delete_step (accounts : KeepsAccounts s) (holds : MemoryCoherent s)
    {tcb : Addr} (taken : memoryStep s (.delete tcb) = some after) : KeepsAccounts after := by
  obtain ⟨idle, isIdle, accounted⟩ := accounts
  simp only [memoryStep] at taken
  split at taken
  · rename_i guards
    obtain ⟨⟨status, kernel, heap⟩, returned, rfl⟩ := Option.map_eq_some_iff.mp taken
    obtain ⟨⟨deleted, result⟩, deletion, finish⟩ := Option.bind_eq_some_iff.mp returned
    have stepped : step s.system (.delete tcb) =
        some { kernel := result
               live := if deleted = .ok then s.system.live.erase tcb else s.system.live } := by
      simp only [step, guards, if_true, deletion, Option.map_some]
    have unlocks : UnlockKeepsBucket s.system (.delete tcb) := trivial
    have stillIdle : result.idleTcb = some idle :=
      (step_sameIdle holds.system unlocks stepped).1.trans isIdle
    rw [Bool.and_eq_true, decide_eq_true_eq] at guards
    simp only at finish
    split at finish
    · rename_i isOk
      obtain ⟨freed, both, same⟩ := Option.map_eq_some_iff.mp finish
      cases same
      have listed := @held_perm s idle
        { s with system := { s.system with live := s.system.live.erase tcb } }
        [s.stackOf tcb, tcbOf tcb] isIdle isIdle
        (allocations_perm (List.perm_cons_erase guards.2))
      have kept := accounted.freeBoth (some (s.stackOf tcb)) (some (tcbOf tcb))
        listed both
      exact ⟨idle, stillIdle, kept⟩
    · rename_i notOk
      cases finish
      refine ⟨idle, stillIdle, ?_⟩
      simp only [if_neg notOk]
      exact accounted
  · cases taken

theorem KeepsAccounts.step (accounts : KeepsAccounts s) (holds : MemoryCoherent s)
    {action : MemoryAction} (allowed : MemoryAllowed s action)
    (taken : memoryStep s action = some after) : KeepsAccounts after := by
  cases action with
  | create taskFunc priority stackSize => exact accounts.create_step holds allowed taken
  | delete tcb => exact accounts.delete_step holds taken
  | kernel action =>
      obtain ⟨idle, isIdle, accounted⟩ := accounts
      simp only [memoryStep] at taken
      split at taken
      · rename_i leaves
        obtain ⟨next, stepped, rfl⟩ := Option.map_eq_some_iff.mp taken
        obtain ⟨same, live⟩ := step_sameTasks holds.system allowed leaves stepped
        refine ⟨idle, same.idle.trans isIdle, ?_⟩
        unfold TaskMemory.held at accounted ⊢
        simp only [live]
        exact accounted
      · cases taken
  | alloc size =>
      obtain ⟨idle, isIdle, accounted⟩ := accounts
      obtain ⟨⟨ptr, heap⟩, returned, rfl⟩ := Option.map_eq_some_iff.mp taken
      have kept : Accounted (tcbOf idle) heap
          ((ptr.map fun addr => ⟨addr, size⟩).toList ++ s.held) := by
        rcases allowed with fits | empty
        · exact accounted.alloc fits returned
        · have null : heapAlloc s.heap size = some (none, s.heap) := heapAlloc_of_empty size empty
          rw [null] at returned
          cases returned
          exact accounted
      refine ⟨idle, isIdle, kept.perm ?_⟩
      unfold TaskMemory.held
      simp only
      rw [List.perm_iff_count]
      intro counted
      simp only [List.count_append]
      omega
  | free allocation =>
      obtain ⟨idle, isIdle, accounted⟩ := accounts
      obtain ⟨heap, returned, rfl⟩ := Option.map_eq_some_iff.mp taken
      have listed := @held_perm s idle { s with app := s.app.erase allocation } [allocation]
        isIdle isIdle (app_perm (List.perm_cons_erase allowed))
      exact ⟨idle, isIdle, accounted.release listed returned⟩
  | write size next =>
      obtain ⟨idle, isIdle, accounted⟩ := accounts
      cases taken
      refine ⟨idle, isIdle, accounted.write ?_⟩
      rw [← allocations_eq isIdle]
      exact allowed

theorem MemoryBooted.keepsAccounts (booted : MemoryBooted s) : KeepsAccounts s := by
  have isIdle : s.system.kernel.idleTcb = some 8 := by
    have first : (heapAlloc heapInit tcbSize).map Prod.fst = some (some 8) := by decide +kernel
    rw [booted.idle] at first
    exact Option.some.inj first
  have exact : (heapAlloc heapInit tcbSize).map (fun result => result.2.size 0) =
      some (allocNeed tcbSize) := by decide +kernel
  have heap := booted.idle
  rw [isIdle] at heap
  obtain ⟨snug, _, free, tiled⟩ := tiled_init.alloc_snug (tcbOf 8)
    (show tcbSize + 15 < uint32Size by decide) heap rfl
  have nothing : s.held = [] := by
    unfold TaskMemory.held
    rw [booted.started.2, booted.app]
    rfl
  refine ⟨8, isIdle, ?_⟩
  rw [nothing]
  refine ⟨⟨free, tiled⟩, ?_, fun _ member => by cases member⟩
  rw [heap] at exact
  exact Option.some.inj exact

end Steps

/-- Every byte of the pool is free, or in the block of the idle task, or in the block of
a control block, a stack or an allocation of the application that is still in use.  Each
of these has the bytes its request takes or eight more. -/
theorem bytes_accounted (s : TaskMemory)
    (reached : Reachable MemoryBooted memoryStep MemoryAllowed s) :
    ∃ free, s.heap.FreeIs free ∧
      totalSize free + allocNeed tcbSize + totalSize (s.held.map (Allocation.block s.heap)) =
        heapPoolSize ∧
      ∀ allocation ∈ s.held, Snug s.heap allocation := by
  have accounts : MemoryCoherent s ∧ KeepsAccounts s := by
    apply reached.invariant fun s => MemoryCoherent s ∧ KeepsAccounts s
    · intro start booted
      exact ⟨booted.memoryCoherent, booted.keepsAccounts⟩
    · intro before action after holds allowed taken
      exact ⟨holds.1.step allowed taken, holds.2.step holds.1 allowed taken⟩
  obtain ⟨_, idle, _, accounted⟩ := accounts
  obtain ⟨free, lists, sum⟩ := accounted.sum
  exact ⟨free, lists, sum, accounted.snug⟩

/-- A task has come and gone, and a creation was refused for want of 40000 bytes: all
but the block of the idle task is free. -/
theorem bytes_accounted_after_delete :
    ∃ s free, Reachable MemoryBooted memoryStep MemoryAllowed s ∧ TaskMemory.held s = [] ∧
      s.heap.FreeIs free ∧ totalSize free = 32680 := by
  obtain ⟨s, lockless, found⟩ :=
    @exists_reachable_of_run TaskMemory MemoryAction MemoryBooted memoryStep
      (fun s a => locklessCheck s a = true) locklessCheck (fun s => decide (s.held = []))
      (fun _ _ => id)
      [.create (some 0) 3 300, .create (some 0) 4 512, .create (some 0) 4 40000, .alloc 20,
        .delete 96, .free ⟨1104, 20⟩, .delete 496] bootedMemory
      memoryBooted_bootedMemory (by decide +kernel)
  have reached := Reachable.of_lockless lockless
  have nothing : s.held = [] := of_decide_eq_true found
  obtain ⟨free, lists, sum, _⟩ := bytes_accounted s reached
  rw [nothing] at sum
  refine ⟨s, free, reached, nothing, lists, ?_⟩
  unfold heapPoolSize at sum
  have idle : allocNeed tcbSize = 88 := by decide
  have none : totalSize (([] : List Allocation).map (Allocation.block s.heap)) = 0 := rfl
  omega

end MicrokernelRtos
