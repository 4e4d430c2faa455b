/-
The heap over whole runs of allocations and frees.

A run keeps the list of the live allocations beside the heap.  The clients write
what they like into the bytes they were given.  A header that has a byte in
common with those may read differently afterwards, any other header may not.

The free blocks and the blocks of the live allocations tile the pool: a split
cuts a tile in two, joining neighbours puts two tiles together, and the rest only
moves tiles between the two lists.
-/

import MicrokernelRtos.Heap
import MicrokernelRtos.Library.TransitionSystem

namespace MicrokernelRtos

open Linked Tiling Transition

/-! ### The runs -/

/-- A pointer that `heap_alloc` has returned, with the size it was asked for. -/
structure Allocation where
  ptr : Nat
  requested : Nat
  deriving DecidableEq, Repr

structure HeapRun where
  heap : Heap
  live : List Allocation

inductive HeapAction where
  | alloc (size : Nat)
  | free (allocation : Allocation)
  | write (size : Nat → Nat) (next : Nat → Option Nat)

def heapStep (s : HeapRun) : HeapAction → Option HeapRun
  | .alloc size =>
      (heapAlloc s.heap size).map fun result =>
        match result.1 with
        | none => { s with heap := result.2 }
        | some ptr => { heap := result.2, live := ⟨ptr, size⟩ :: s.live }
  | .free allocation =>
      (heapFree s.heap (some allocation.ptr)).map fun heap =>
        { heap := heap, live := s.live.erase allocation }
  | .write size next => some { s with heap := { s.heap with size := size, next := next } }

/-- No byte of a header at this offset was given to a client. -/
def HeapRun.NotGiven (s : HeapRun) (addr : Nat) : Prop :=
  ∀ allocation ∈ s.live,
    addr + headerSize ≤ allocation.ptr ∨ allocation.ptr + allocation.requested ≤ addr

def HeapAllowed (s : HeapRun) : HeapAction → Prop
  | .alloc size => size ≤ heapPoolSize
  | .free allocation => allocation ∈ s.live
  | .write size next =>
      ∀ addr, s.NotGiven addr → size addr = s.heap.size addr ∧ next addr = s.heap.next addr

def HeapBoot (s : HeapRun) : Prop := s = ⟨heapInit, []⟩

def Allocation.block (heap : Heap) (allocation : Allocation) : Block :=
  heap.blockAt (allocation.ptr - headerSize)

def HeapRun.blocks (s : HeapRun) (free : List Nat) : List Block :=
  free.map s.heap.blockAt ++ s.live.map (Allocation.block s.heap)

/-! ### The invariant -/

def SoundBlock (block : Block) : Prop := 8 ∣ block.start ∧ 8 ∣ block.size ∧ 16 ≤ block.size

theorem SoundBlock.join {block other : Block} (left : SoundBlock block)
    (right : SoundBlock other) : SoundBlock (block.join other) := by
  obtain ⟨startAligned, sizeAligned, large⟩ := left
  refine ⟨startAligned, Nat.dvd_add sizeAligned right.2.1, ?_⟩
  change 16 ≤ block.size + other.size
  omega

structure Tiled (s : HeapRun) (free : List Block) : Prop where
  ready : s.heap.heapReady = true
  lists : s.heap.FreeIs free
  tiles : Tiles (free ++ s.live.map (Allocation.block s.heap)) 0 heapPoolSize
  sound : ∀ block ∈ free ++ s.live.map (Allocation.block s.heap), SoundBlock block
  inside : ∀ allocation ∈ s.live, headerSize ≤ allocation.ptr ∧
    allocation.ptr + allocation.requested ≤ (allocation.block s.heap).stop

section Facts

variable {s : HeapRun} {free : List Block} {allocation : Allocation} {block : Block}

theorem Tiled.positive (tiled : Tiled s free) :
    ∀ block ∈ free ++ s.live.map (Allocation.block s.heap), 0 < block.size := by
  intro block member
  have large := (tiled.sound block member).2.2
  omega

theorem Tiled.apart (tiled : Tiled s free) :
    (free ++ s.live.map (Allocation.block s.heap)).Pairwise Apart :=
  tiled.tiles.pairwise tiled.positive

theorem Tiled.mem_free (member : block ∈ free) :
    block ∈ free ++ s.live.map (Allocation.block s.heap) :=
  List.mem_append_left _ member

theorem Tiled.mem_live (member : allocation ∈ s.live) :
    allocation.block s.heap ∈ free ++ s.live.map (Allocation.block s.heap) :=
  List.mem_append_right _ (List.mem_map_of_mem member)

theorem Tiled.stop_le (tiled : Tiled s free)
    (member : block ∈ free ++ s.live.map (Allocation.block s.heap)) :
    block.stop ≤ heapPoolSize :=
  (tiled.tiles.within member (tiled.positive block member)).2

theorem Tiled.stop_lt (tiled : Tiled s free)
    (member : block ∈ free ++ s.live.map (Allocation.block s.heap)) :
    block.stop < uint32Size :=
  Nat.lt_of_le_of_lt (tiled.stop_le member) (by decide)

theorem Tiled.length_lt (tiled : Tiled s free) : free.length < heapPoolSize := by
  have bounded : free.map Block.start ⊆ List.range (heapPoolSize - 1) := by
    intro addr member
    obtain ⟨block, inside, rfl⟩ := List.mem_map.mp member
    have stop := tiled.stop_le (Tiled.mem_free inside)
    have large := (tiled.sound block (Tiled.mem_free inside)).2.2
    unfold Block.stop at stop
    rw [List.mem_range]
    omega
  have short := (List.subperm_of_subset tiled.lists.distinct bounded).length_le
  rw [List.length_map, List.length_range] at short
  unfold heapPoolSize at short ⊢
  omega

theorem Tiled.live_start_ne (tiled : Tiled s free) (member : allocation ∈ s.live)
    (listed : block ∈ free) {place : Nat} (above : block.start ≤ place)
    (below : place < block.stop) : allocation.ptr - headerSize ≠ place := by
  intro same
  have separate := (List.pairwise_append.mp tiled.apart).2.2 block listed
    (allocation.block s.heap) (List.mem_map_of_mem member)
  have extent := tiled.positive _ (@Tiled.mem_live _ free _ member)
  unfold Apart Block.stop at separate
  unfold Block.stop at below
  change (0 : Nat) < s.heap.size (allocation.ptr - headerSize) at extent
  simp only [Allocation.block, Heap.blockAt] at separate
  omega

theorem Tiled.live_notMem (tiled : Tiled s free) (member : allocation ∈ s.live) :
    allocation.ptr - headerSize ∉ free.map Block.start := by
  intro listed
  obtain ⟨block, inside, same⟩ := List.mem_map.mp listed
  have extent := tiled.positive block (Tiled.mem_free inside)
  exact tiled.live_start_ne member inside (Nat.le_refl _) (by unfold Block.stop; omega) same.symm

theorem Tiled.perm (tiled : Tiled s free) {live : List Allocation} (same : s.live.Perm live) :
    Tiled { s with live := live } free := by
  have blocks : (free ++ s.live.map (Allocation.block s.heap)).Perm
      (free ++ live.map (Allocation.block s.heap)) :=
    (same.map _).append_left free
  refine ⟨tiled.ready, tiled.lists, ?_, ?_, ?_⟩
  · exact tiled.tiles.congr fun place => (count_perm blocks place).symm
  · intro block member
    exact tiled.sound block (blocks.mem_iff.mpr member)
  · intro allocation member
    exact tiled.inside allocation (same.mem_iff.mpr member)

theorem block_congr {heap other : Heap}
    (agree : other.size (allocation.ptr - headerSize) = heap.size (allocation.ptr - headerSize)) :
    allocation.block other = allocation.block heap := by
  simp only [Allocation.block, Heap.blockAt, agree]

theorem map_block_congr {heap other : Heap} {live : List Allocation}
    (agree : ∀ allocation ∈ live,
      other.size (allocation.ptr - headerSize) = heap.size (allocation.ptr - headerSize)) :
    live.map (Allocation.block other) = live.map (Allocation.block heap) := by
  apply List.map_congr_left
  intro allocation member
  exact block_congr (agree allocation member)

end Facts

/-! ### Allocating -/

section Steps

variable {heap after : Heap} {live : List Allocation} {free newFree : List Block}
variable {taken : Block} {size : Nat}

theorem allocTotal_eq (fits : size + 15 < uint32Size) :
    allocTotal size = (size + 7) / 8 * 8 + headerSize := by
  unfold allocTotal headerSize
  rw [Nat.mod_eq_of_lt (show size + 7 < uint32Size by omega), Nat.mod_eq_of_lt (by omega)]

theorem allocTotal_spec (positive : size ≠ 0) (fits : size + 15 < uint32Size) :
    8 ∣ allocTotal size ∧ 16 ≤ allocTotal size ∧ size + headerSize ≤ allocTotal size := by
  rw [allocTotal_eq fits]
  unfold headerSize
  omega

theorem fits_of_le_pool (bounded : size ≤ heapPoolSize) : size + 15 < uint32Size := by
  unfold heapPoolSize at bounded
  unfold uint32Size
  omega

theorem Tiled.hand_over (tiled : Tiled ⟨heap, live⟩ free) (ready : after.heapReady = true)
    (lists : after.FreeIs newFree) (sized : after.size taken.start = taken.size)
    (agree : ∀ allocation ∈ live,
      after.size (allocation.ptr - headerSize) = heap.size (allocation.ptr - headerSize))
    (same : ∀ place, count newFree place + (if taken.covers place then 1 else 0) =
      count free place)
    (sound : ∀ block ∈ newFree, SoundBlock block) (soundTaken : SoundBlock taken)
    (fits : size + headerSize ≤ taken.size) :
    Tiled ⟨after, ⟨taken.start + headerSize, size⟩ :: live⟩ newFree := by
  have takenBlock : Allocation.block after ⟨taken.start + headerSize, size⟩ = taken := by
    simp only [Allocation.block, Heap.blockAt, Nat.add_sub_cancel, sized]
  have blocks : (⟨taken.start + headerSize, size⟩ :: live).map (Allocation.block after) =
      taken :: live.map (Allocation.block heap) := by
    rw [List.map_cons, takenBlock, map_block_congr agree]
  refine ⟨ready, lists, ?_, ?_, ?_⟩
  · refine tiled.tiles.congr fun place => ?_
    rw [blocks, count_append, count_append, count_cons, ← same place]
    simp only
    omega
  · rw [blocks]
    intro block member
    rcases List.mem_append.mp member with listed | held
    · exact sound block listed
    · rcases List.mem_cons.mp held with isTaken | older
      · rw [isTaken]
        exact soundTaken
      · exact tiled.sound block (List.mem_append_right _ older)
  · intro allocation member
    rcases List.mem_cons.mp member with isNew | older
    · rw [isNew, takenBlock]
      refine ⟨Nat.le_add_left _ _, ?_⟩
      change taken.start + headerSize + size ≤ taken.start + taken.size
      omega
    · rw [block_congr (agree allocation older)]
      exact tiled.inside allocation older

theorem Tiled.start_ne {front back : List Block} {chosen : Block}
    (tiled : Tiled ⟨heap, live⟩ (front ++ chosen :: back)) {place : Nat}
    (above : chosen.start ≤ place) (below : place < chosen.stop) :
    place ∉ (front ++ back).map Block.start := by
  intro member
  obtain ⟨block, inside, same⟩ := List.mem_map.mp member
  have pairs := (List.pairwise_append.mp tiled.apart).1
  rw [List.pairwise_middle Apart.symm, List.pairwise_cons] at pairs
  have listed : block ∈ front ++ chosen :: back := mem_with_middle inside
  have extent := tiled.positive block (Tiled.mem_free listed)
  rcases pairs.1 block inside with behind | before
  · omega
  · unfold Block.stop at before
    omega

/-- What is left of the free list when `total` bytes of a block are taken.  A rest
that has room for a header and eight more bytes goes to the front. -/
def leftFree (front back : List Block) (chosen : Block) (total : Nat) : List Block :=
  if headerSize + 8 ≤ chosen.size - total then
    coalesceFrom ⟨chosen.start + total, chosen.size - total⟩ (front ++ back)
  else front ++ back

def takenFrom (chosen : Block) (total : Nat) : Block :=
  ⟨chosen.start, if headerSize + 8 ≤ chosen.size - total then total else chosen.size⟩

/-- `heap_alloc` has handed out the block behind `front`, and the headers of the live
blocks are as they were. -/
structure Handed (heap : Heap) (live : List Allocation) (front back : List Block)
    (chosen : Block) (size : Nat) (after : Heap) : Prop where
  block : after.blockAt chosen.start = takenFrom chosen (allocTotal size)
  others : ∀ allocation ∈ live,
    after.size (allocation.ptr - headerSize) = heap.size (allocation.ptr - headerSize)
  tiled : Tiled ⟨after, ⟨chosen.start + headerSize, size⟩ :: live⟩
    (leftFree front back chosen (allocTotal size))

theorem Tiled.split {front back : List Block} {chosen : Block} {total : Nat} {removed : Heap}
    (tiled : Tiled ⟨heap, live⟩ (front ++ chosen :: back)) (aligned : 8 ∣ total)
    (large : 16 ≤ total) (room : size + headerSize ≤ total) (leaves : total + 16 ≤ chosen.size)
    (lists : removed.FreeIs (front ++ back)) (sameSize : removed.size = heap.size)
    (ready : removed.heapReady = true) :
    ∃ after,
      coalesceForward (prependFree
        (writeFragment removed (chosen.start + total) (chosen.size - total) chosen.start total)
        (chosen.start + total)) = some after ∧
      after.size chosen.start = total ∧
      (∀ allocation ∈ live,
        after.size (allocation.ptr - headerSize) = heap.size (allocation.ptr - headerSize)) ∧
      Tiled ⟨after, ⟨chosen.start + headerSize, size⟩ :: live⟩
        (coalesceFrom ⟨chosen.start + total, chosen.size - total⟩ (front ++ back)) := by
  have listed : chosen ∈ front ++ chosen :: back :=
    List.mem_append_right _ List.mem_cons_self
  have kept : ∀ block ∈ front ++ back, block ∈ front ++ chosen :: back := fun _ member =>
    mem_with_middle member
  obtain ⟨startAligned, sizeAligned, _⟩ := tiled.sound chosen (Tiled.mem_free listed)
  have fragSound : SoundBlock ⟨chosen.start + total, chosen.size - total⟩ := by
    refine ⟨Nat.dvd_add startAligned aligned, Nat.dvd_sub sizeAligned aligned, ?_⟩
    change 16 ≤ chosen.size - total
    omega
  have fragStop : (Block.mk (chosen.start + total) (chosen.size - total)).stop = chosen.stop := by
    unfold Block.stop
    simp only
    omega
  have fragInside : chosen.start + total < chosen.stop := by
    unfold Block.stop
    omega
  have startInside : chosen.start < chosen.stop := by omega
  have short : (front ++ back).length < heapPoolSize := by
    have length := tiled.length_lt
    rw [List.length_append] at length ⊢
    rw [List.length_cons] at length
    omega
  obtain ⟨after, returned, joined, sized, frame⟩ := @splitBlock_spec removed (front ++ back)
    ⟨chosen.start + total, chosen.size - total⟩ chosen.start total lists short
    (by
      intro member inside
      rcases List.mem_cons.mp inside with isFrag | behind
      · rw [isFrag, fragStop]
        exact tiled.stop_lt (Tiled.mem_free listed)
      · exact tiled.stop_lt (Tiled.mem_free (kept member behind)))
    (tiled.start_ne (Nat.le_add_right _ _) fragInside)
    (tiled.start_ne (Nat.le_refl _) startInside) (by simp only; omega)
  have agree : ∀ allocation ∈ live,
      after.size (allocation.ptr - headerSize) = heap.size (allocation.ptr - headerSize) := by
    intro allocation member
    rw [(frame.2 (allocation.ptr - headerSize) _).1, sameSize]
    simp only [List.map_cons, List.mem_cons, not_or]
    refine ⟨tiled.live_start_ne member listed (Nat.le_refl _) startInside,
      tiled.live_start_ne member listed (Nat.le_add_right _ _) fragInside, ?_⟩
    intro inside
    obtain ⟨block, isKept, same⟩ := List.mem_map.mp inside
    exact tiled.live_notMem member (same ▸ List.mem_map_of_mem (kept block isKept))
  refine ⟨after, returned, sized, agree, ?_⟩
  apply @Tiled.hand_over _ _ _ _ _ ⟨chosen.start, total⟩ _ tiled (frame.1.trans ready) joined sized
    agree
  · intro place
    have cut := @count_split total chosen (by omega) place
    rw [count_coalesceFrom, count_cons, count_append, count_append, count_cons]
    omega
  · apply forall_coalesceFrom
    · exact fun _ _ left right _ => left.join right
    · intro block member
      rcases List.mem_cons.mp member with isFrag | behind
      · rw [isFrag]
        exact fragSound
      · exact tiled.sound block (Tiled.mem_free (kept block behind))
  · exact ⟨startAligned, aligned, large⟩
  · exact room

theorem Tiled.take {front back : List Block} {chosen : Block}
    (tiled : Tiled ⟨heap, live⟩ (front ++ chosen :: back)) (positive : size ≠ 0)
    (unwrapped : size + 15 < uint32Size) (fits : allocTotal size ≤ chosen.size) :
    ∃ after,
      takeBlock heap (allocTotal size) chosen.start (front.map Block.start).getLast? =
        some after ∧
      Handed heap live front back chosen size after := by
  obtain ⟨aligned, large, room⟩ := allocTotal_spec positive unwrapped
  obtain ⟨removed, sameSize, frame⟩ := removeFromList_spec tiled.lists
  have listed : chosen ∈ front ++ chosen :: back :=
    List.mem_append_right _ List.mem_cons_self
  have chosenSound := tiled.sound chosen (Tiled.mem_free listed)
  have chosenSize : heap.size chosen.start = chosen.size := tiled.lists.sizes chosen listed
  have kept : ∀ block ∈ front ++ back, block ∈ front ++ chosen :: back := fun _ member =>
    mem_with_middle member
  have keptSound : ∀ block ∈ front ++ back, SoundBlock block := fun block member =>
    tiled.sound block (Tiled.mem_free (kept block member))
  have without : ∀ place, count (front ++ back) place + (if chosen.covers place then 1 else 0) =
      count (front ++ chosen :: back) place := by
    intro place
    rw [count_append, count_append, count_cons]
    omega
  unfold takeBlock
  rw [chosenSize]
  simp only
  by_cases splits : headerSize + 8 ≤ chosen.size - allocTotal size
  · have cut := splits
    unfold headerSize at cut
    obtain ⟨after, returned, sized, agree, split⟩ := tiled.split aligned large room (by omega)
      removed sameSize (frame.1.trans tiled.ready)
    rw [if_pos splits]
    refine ⟨after, returned, ?_, agree, ?_⟩
    · rw [takenFrom, if_pos splits, Heap.blockAt, sized]
    · rw [leftFree, if_pos splits]
      exact split
  · rw [if_neg splits]
    have agree : ∀ allocation ∈ live,
        (removeFromList heap chosen.start (front.map Block.start).getLast?).size
          (allocation.ptr - headerSize) = heap.size (allocation.ptr - headerSize) := by
      intro allocation _
      rw [sameSize]
    refine ⟨_, rfl, ?_, agree, ?_⟩
    · rw [takenFrom, if_neg splits, Heap.blockAt, sameSize, chosenSize]
    · rw [leftFree, if_neg splits]
      apply tiled.hand_over (frame.1.trans tiled.ready) removed
      · rw [sameSize, chosenSize]
      · exact agree
      · exact without
      · exact keptSound
      · exact chosenSound
      · omega

/-- `heap_alloc` returns, with NULL and the heap as it was or with the first block
that is large enough. -/
theorem Tiled.alloc (tiled : Tiled ⟨heap, live⟩ free) (unwrapped : size + 15 < uint32Size) :
    (size = 0 ∨ ∀ block ∈ free, block.size < allocTotal size) ∧
        heapAlloc heap size = some (none, heap) ∨
      ∃ after front chosen back, free = front ++ chosen :: back ∧
        (∀ block ∈ front, block.size < allocTotal size) ∧ allocTotal size ≤ chosen.size ∧
        heapAlloc heap size = some (some (chosen.start + headerSize), after) ∧
        Handed heap live front back chosen size after := by
  unfold heapAlloc
  rw [tiled.ready]
  by_cases zero : size = 0
  · rw [if_pos (Or.inr zero)]
    exact Or.inl ⟨Or.inl zero, rfl⟩
  · rw [if_neg (by simp [zero])]
    rcases @findFit_spec heap (allocTotal size) _ none _ _ tiled.length_lt tiled.lists with
      ⟨small, absent⟩ | ⟨front, chosen, back, rfl, small, fits, found⟩
    · rw [absent]
      exact Or.inl ⟨Or.inr small, rfl⟩
    · rw [found, Option.or_none]
      obtain ⟨after, taken, handed⟩ := tiled.take zero unwrapped fits
      simp only
      rw [taken]
      exact Or.inr ⟨after, front, chosen, back, rfl, small, fits, rfl, handed⟩

theorem heapAlloc_of_empty (size : Nat) (empty : heap.freeList = none) :
    heapAlloc heap size = some (none, heap) := by
  unfold heapAlloc
  rw [empty]
  split
  · rfl
  · rfl

theorem Tiled.live_apart {allocation other : Allocation} {rest : List Allocation}
    (tiled : Tiled ⟨heap, allocation :: rest⟩ free) (member : other ∈ rest) :
    Apart (allocation.block heap) (other.block heap) := by
  have pairs : ((allocation :: rest).map (Allocation.block heap)).Pairwise Apart :=
    (List.pairwise_append.mp tiled.apart).2.1
  rw [List.map_cons, List.pairwise_cons] at pairs
  exact pairs.1 (other.block heap) (List.mem_map_of_mem member)

theorem Tiled.header_ne {allocation other : Allocation} {rest : List Allocation}
    (tiled : Tiled ⟨heap, allocation :: rest⟩ free) (member : other ∈ rest) :
    other.ptr - headerSize ≠ allocation.ptr - headerSize := by
  intro same
  have separate := tiled.live_apart member
  have left := tiled.positive _ (@Tiled.mem_live _ free _ List.mem_cons_self)
  have right := tiled.positive _ (@Tiled.mem_live _ free _ (List.mem_cons_of_mem _ member))
  have starts : (other.block heap).start = (allocation.block heap).start := same
  unfold Apart Block.stop at separate
  simp only at left right
  omega

/-- `heap_free` of a live pointer returns, and the block is in the free list. -/
theorem Tiled.release {allocation : Allocation} {rest : List Allocation}
    (tiled : Tiled ⟨heap, allocation :: rest⟩ free) :
    ∃ after, heapFree heap (some allocation.ptr) = some after ∧
      Tiled ⟨after, rest⟩ (coalesceFrom (allocation.block heap) free) := by
  have held : allocation ∈ allocation :: rest := List.mem_cons_self
  have ready : heap.heapReady = true := tiled.ready
  have tiles : Tiles (free ++ (allocation :: rest).map (Allocation.block heap)) 0 heapPoolSize :=
    tiled.tiles
  have sized : heap.size (allocation.block heap).start = (allocation.block heap).size := rfl
  have outside : (allocation.block heap).start ∉ free.map Block.start := tiled.live_notMem held
  have every : ∀ block ∈ allocation.block heap :: free,
      block ∈ free ++ (allocation :: rest).map (Allocation.block heap) := by
    intro block member
    rcases List.mem_cons.mp member with isFreed | listed
    · rw [isFreed]
      exact List.mem_append_right _ List.mem_cons_self
    · exact Tiled.mem_free (s := ⟨heap, allocation :: rest⟩) listed
  obtain ⟨after, returned, lists, frame⟩ := coalesceForward_spec
    (prependFree_spec tiled.lists sized outside) tiled.length_lt
    (fun block member => tiled.stop_lt (every block member))
  have agree : ∀ other ∈ rest,
      after.size (other.ptr - headerSize) = heap.size (other.ptr - headerSize) := by
    intro other member
    refine (frame.2 (other.ptr - headerSize) ?_).1
    rw [List.map_cons, List.mem_cons, not_or]
    refine ⟨?_, tiled.live_notMem (List.mem_cons_of_mem _ member)⟩
    exact tiled.header_ne member
  refine ⟨after, ?_, frame.1.trans tiled.ready, lists, ?_, ?_, ?_⟩
  · unfold heapFree
    simp only
    rw [if_neg (by simp [ready])]
    exact returned
  · refine tiles.congr fun place => ?_
    rw [map_block_congr agree, count_append, count_append, count_coalesceFrom, count_cons,
      List.map_cons, count_cons]
    omega
  · rw [map_block_congr agree]
    intro block member
    rcases List.mem_append.mp member with listed | held
    · refine forall_coalesceFrom (fun _ _ left right _ => left.join right) ?_ block listed
      exact fun old inside => tiled.sound old (every old inside)
    · exact tiled.sound block (List.mem_append_right _ (List.mem_cons_of_mem _ held))
  · intro other member
    rw [block_congr (agree other member)]
    exact tiled.inside other (List.mem_cons_of_mem _ member)

/-! ### Writes of the clients -/

theorem Tiled.notGiven {s : HeapRun} {block : Block} (tiled : Tiled s free)
    (member : block ∈ free ++ s.live.map (Allocation.block s.heap)) : s.NotGiven block.start := by
  intro allocation held
  obtain ⟨behind, within⟩ := tiled.inside allocation held
  have own : allocation.block s.heap ∈ free ++ s.live.map (Allocation.block s.heap) :=
    Tiled.mem_live held
  have large := (tiled.sound block member).2.2
  have start : (allocation.block s.heap).start = allocation.ptr - headerSize := rfl
  by_cases same : block = allocation.block s.heap
  · rw [same, start]
    omega
  · unfold headerSize at behind start ⊢
    rcases tiled.apart.forall member own same with before | after
    · unfold Block.stop at before
      omega
    · omega

theorem Tiled.write {s : HeapRun} (tiled : Tiled s free) {sizes : Nat → Nat}
    {next : Nat → Option Nat} (allowed : HeapAllowed s (.write sizes next)) :
    Tiled { s with heap := { s.heap with size := sizes, next := next } } free := by
  have agree : ∀ allocation ∈ s.live, sizes (allocation.ptr - headerSize) =
      s.heap.size (allocation.ptr - headerSize) := fun allocation member =>
    (allowed _ (tiled.notGiven (Tiled.mem_live member))).1
  refine ⟨tiled.ready, ?_, ?_, ?_, ?_⟩
  · apply Heap.ListsFrom.congr tiled.lists
    intro addr member
    obtain ⟨block, listed, same⟩ := List.mem_map.mp member
    rw [← same]
    exact allowed block.start (tiled.notGiven (Tiled.mem_free listed))
  · simp only
    rw [@map_block_congr s.heap _ _ agree]
    exact tiled.tiles
  · simp only
    rw [@map_block_congr s.heap _ _ agree]
    exact tiled.sound
  · intro allocation member
    simp only
    rw [@block_congr _ s.heap _ (agree allocation member)]
    exact tiled.inside allocation member

end Steps

/-! ### The results -/

theorem tiled_init : Tiled ⟨heapInit, []⟩ [⟨0, heapPoolSize⟩] where
  ready := rfl
  lists := by
    refine ⟨⟨rfl, rfl⟩, ?_, List.nodup_singleton _⟩
    intro block member
    rw [List.mem_singleton.mp member]
    rfl
  tiles := tiles_single 0 heapPoolSize
  sound := by
    intro block member
    rw [List.mem_singleton.mp member]
    unfold SoundBlock
    decide
  inside := fun _ member => absurd member List.not_mem_nil

theorem Tiled.alloc_step {s : HeapRun} {free : List Block} {size : Nat} (tiled : Tiled s free)
    (unwrapped : size + 15 < uint32Size ∨ s.heap.freeList = none) :
    ∃ after newFree, heapStep s (.alloc size) = some after ∧ Tiled after newFree := by
  simp only [heapStep]
  rcases unwrapped with fits | empty
  · rcases tiled.alloc fits with
      ⟨_, null⟩ | ⟨heap, _, chosen, _, _, _, _, returned, handed⟩
    · rw [null]
      exact ⟨s, free, rfl, tiled⟩
    · rw [returned]
      exact ⟨_, _, rfl, handed.tiled⟩
  · rw [heapAlloc_of_empty size empty]
    exact ⟨s, free, rfl, tiled⟩

theorem Tiled.step {s : HeapRun} {free : List Block} {action : HeapAction} (tiled : Tiled s free)
    (allowed : HeapAllowed s action) :
    ∃ after newFree, heapStep s action = some after ∧ Tiled after newFree := by
  cases action with
  | alloc size => exact tiled.alloc_step (Or.inl (fits_of_le_pool allowed))
  | free allocation =>
      simp only [heapStep]
      obtain ⟨heap, returned, released⟩ := (tiled.perm (List.perm_cons_erase allowed)).release
      rw [returned]
      exact ⟨_, _, rfl, released⟩
  | write size next => exact ⟨_, free, rfl, tiled.write allowed⟩

theorem exists_tiled {s : HeapRun} (reached : Reachable HeapBoot heapStep HeapAllowed s) :
    ∃ free, Tiled s free := by
  refine reached.invariant (fun s => ∃ free, Tiled s free) ?_ ?_
  · intro s boot
    rw [boot]
    exact ⟨_, tiled_init⟩
  · intro s action after holds allowed taken
    obtain ⟨free, tiled⟩ := holds
    obtain ⟨result, newFree, returned, kept⟩ := tiled.step allowed
    rw [taken] at returned
    cases returned
    exact ⟨newFree, kept⟩

/-- The free list visits the blocks at the offsets `free`, without meeting one
twice, and these blocks and the blocks of the live allocations tile the pool. -/
structure HeapWellFormed (s : HeapRun) (free : List Nat) : Prop where
  list : Path s.heap.next s.heap.freeList free none
  distinct : free.Nodup
  apart : (s.blocks free).Pairwise Apart
  cover : ∀ place, (∃ block ∈ s.blocks free, block.start ≤ place ∧ place < block.stop) ↔
    place < heapPoolSize
  sound : ∀ block ∈ s.blocks free, 8 ∣ block.start ∧ 8 ∣ block.size ∧ 16 ≤ block.size
  live : ∀ allocation ∈ s.live, 8 ∣ allocation.ptr ∧
    allocation.ptr = (allocation.block s.heap).start + headerSize ∧
    allocation.ptr + allocation.requested ≤ (allocation.block s.heap).stop

theorem Tiled.wellFormed {s : HeapRun} {free : List Block} (tiled : Tiled s free) :
    HeapWellFormed s (free.map Block.start) := by
  have blocks : s.blocks (free.map Block.start) =
      free ++ s.live.map (Allocation.block s.heap) := by
    rw [HeapRun.blocks, tiled.lists.map_blockAt]
  refine ⟨tiled.lists.links, tiled.lists.distinct, ?_, ?_, ?_, ?_⟩
  · rw [blocks]
    exact tiled.apart
  · rw [blocks]
    intro place
    constructor
    · rintro ⟨block, member, inside⟩
      exact (tiled.tiles.range member (Block.covers_iff.mpr inside)).2
    · intro below
      obtain ⟨block, member, covers⟩ := tiled.tiles.exists_cover (Nat.zero_le place) below
      exact ⟨block, member, Block.covers_iff.mp covers⟩
  · rw [blocks]
    exact tiled.sound
  · intro allocation member
    obtain ⟨behind, within⟩ := tiled.inside allocation member
    have aligned := (tiled.sound _ (@Tiled.mem_live _ free _ member)).1
    change 8 ∣ allocation.ptr - headerSize at aligned
    have header : allocation.ptr = (allocation.block s.heap).start + headerSize :=
      (Nat.sub_add_cancel behind).symm
    refine ⟨?_, header, within⟩
    unfold headerSize at aligned behind
    omega

/-- In every reachable state the heap is well formed, and every further call that
is permitted there returns. -/
theorem heapWellFormed_of_reachable {s : HeapRun}
    (reached : Reachable HeapBoot heapStep HeapAllowed s) :
    (∃ free, HeapWellFormed s free) ∧
      ∀ action, HeapAllowed s action → ∃ after, heapStep s action = some after := by
  obtain ⟨free, tiled⟩ := exists_tiled reached
  refine ⟨⟨_, tiled.wellFormed⟩, ?_⟩
  intro action allowed
  obtain ⟨after, _, returned, _⟩ := tiled.step allowed
  exact ⟨after, returned⟩

def heapCheck (s : HeapRun) : HeapAction → Bool
  | .alloc size => decide (size ≤ heapPoolSize)
  | .free allocation => decide (allocation ∈ s.live)
  | .write _ _ => false

theorem heapAllowed_of_check (s : HeapRun) (action : HeapAction)
    (checked : heapCheck s action = true) : HeapAllowed s action := by
  cases action with
  | alloc size =>
      have bound : size ≤ heapPoolSize := of_decide_eq_true checked
      exact bound
  | free allocation =>
      have member : allocation ∈ s.live := of_decide_eq_true checked
      exact member
  | write _ _ => cases checked

theorem heapWellFormed_after_free :
    ∃ s, s.live = [⟨120, 8⟩] ∧ s.heap.freeList = some 0 ∧ s.heap.next 0 = some 128 ∧
      ∃ free, HeapWellFormed s free := by
  obtain ⟨s, reached, found⟩ :=
    @exists_reachable_of_run HeapRun HeapAction HeapBoot heapStep HeapAllowed heapCheck
      (fun s => decide (s.live = [⟨120, 8⟩] ∧ s.heap.freeList = some 0 ∧
        s.heap.next 0 = some 128))
      heapAllowed_of_check [.alloc 100, .alloc 8, .free ⟨8, 100⟩] ⟨heapInit, []⟩ rfl
      (by decide +kernel)
  obtain ⟨live, first, second⟩ := of_decide_eq_true found
  exact ⟨s, live, first, second, (heapWellFormed_of_reachable reached).1⟩

end MicrokernelRtos
