/-
What `_coalesce_forward` makes of a list of disjoint blocks, and what an
allocation that is freed at once leaves behind.

The pass starts from the block at the front.  `heap_alloc` puts the rest of the
block it splits at the front, and `heap_free` puts the block it is given in front
of that, so that the two parts of a block meet in the list and are one block again.
-/

import MicrokernelRtos.Runs.FirstFit
import MicrokernelRtos.Runs.Recovery

namespace MicrokernelRtos

open Linked Tiling Transition

/-! ### One pass -/

/-- What one pass makes of a list of blocks. -/
structure Joined (before after : List Block) : Prop where
  cover : ∀ place, (∃ block ∈ after, block.start ≤ place ∧ place < block.stop) ↔
    ∃ block ∈ before, block.start ≤ place ∧ place < block.stop
  apart : after.Pairwise Apart
  contained : ∀ old ∈ before, ∃ merged ∈ after,
    merged.start ≤ old.start ∧ old.stop ≤ merged.stop
  separated : after.IsChain fun block follower => block.stop ≠ follower.start

theorem covered_iff {blocks : List Block} {place : Nat} :
    (∃ block ∈ blocks, block.covers place = true) ↔
      ∃ block ∈ blocks, block.start ≤ place ∧ place < block.stop := by
  simp only [Block.covers_iff]

theorem joined_coalesceFrom {block : Block} {rest : List Block}
    (apart : (block :: rest).Pairwise Apart) (positive : ∀ old ∈ block :: rest, 0 < old.size) :
    Joined (block :: rest) (coalesceFrom block rest) where
  cover := by
    intro place
    rw [← covered_iff, ← covered_iff]
    exact covered_iff_of_count (count_coalesceFrom block rest place)
  apart := by
    apply apart_of_count
    · apply forall_coalesceFrom
      · intro left right leftPositive _ _
        exact Nat.lt_of_lt_of_le leftPositive (Nat.le_add_right _ _)
      · exact positive
    · intro place
      rw [count_coalesceFrom]
      exact count_le_one apart place
  contained := contained_coalesceFrom block rest
  separated := coalesceFrom_separated block rest

theorem length_le_of_inside {heap : Heap} {free : List Block} (lists : heap.FreeIs free)
    (positive : ∀ block ∈ free, 0 < block.size)
    (inside : ∀ block ∈ free, block.stop ≤ heapPoolSize) : free.length ≤ heapPoolSize := by
  rw [← List.length_map (f := Block.start)]
  apply length_le_of_bounded lists.distinct
  intro addr member
  obtain ⟨block, listed, rfl⟩ := List.mem_map.mp member
  have extent := positive block listed
  have stop := inside block listed
  unfold Block.stop at stop
  omega

/-- `_coalesce_forward` ends on every list of disjoint blocks inside the pool, joins
the blocks that meet in the list, and has nothing left to do a second time. -/
theorem coalesceForward_joins (heap : Heap) (free : List Block) (lists : heap.FreeIs free)
    (apart : free.Pairwise Apart) (positive : ∀ block ∈ free, 0 < block.size)
    (inside : ∀ block ∈ free, block.stop ≤ heapPoolSize) :
    ∃ after newFree, coalesceForward heap = some after ∧ after.FreeIs newFree ∧
      Joined free newFree ∧ coalesceForward after = some after := by
  have short := length_le_of_inside lists positive inside
  cases free with
  | nil =>
      have empty : heap.freeList = none := lists.links
      have unchanged : coalesceForward heap = some heap := by
        rw [coalesceForward, empty, show heapPoolSize = 32767 + 1 from rfl, coalesceLoop]
      exact ⟨heap, [], unchanged, lists,
        ⟨fun _ => Iff.rfl, List.Pairwise.nil, fun _ member => absurd member List.not_mem_nil,
          List.isChain_nil⟩, unchanged⟩
  | cons block rest =>
      rw [List.length_cons] at short
      obtain ⟨after, returned, joined, _⟩ := coalesceForward_spec lists (by omega)
        (fun old member => Nat.lt_of_le_of_lt (inside old member) (by decide))
      refine ⟨after, _, returned, joined, joined_coalesceFrom apart positive, ?_⟩
      have separated := coalesceFrom_separated block rest
      have fewer := (coalesceFrom_starts block rest).length_le
      rw [List.length_map, List.length_map, List.length_cons] at fewer
      obtain ⟨first, others, listed, _⟩ := coalesceFrom_head block rest
      rw [listed] at joined separated fewer
      have front : after.freeList = some first.start := joined.links.1
      rw [coalesceForward, front]
      rw [List.length_cons] at fewer
      exact coalesceLoop_of_separated (by omega) (front ▸ joined) separated

def scatteredHeap : Heap where
  size := Function.update (Function.update (Function.update (fun _ => 0) 64 16) 80 32) 0 24
  next := Function.update (Function.update (fun _ => none) 64 (some 80)) 80 (some 0)
  freeList := some 64
  heapReady := true

theorem coalesceForward_joins_scattered :
    ∃ after newFree, coalesceForward scatteredHeap = some after ∧ after.FreeIs newFree ∧
      Joined [⟨64, 16⟩, ⟨80, 32⟩, ⟨0, 24⟩] newFree ∧ coalesceForward after = some after := by
  apply coalesceForward_joins
  · exact ⟨⟨rfl, rfl, rfl, rfl⟩, by decide, by decide⟩
  · unfold Apart
    decide
  · decide
  · decide

/-! ### An allocation that is freed at once -/

section RoundTrip

variable {heap : Heap} {live : List Allocation} {free front back : List Block} {chosen : Block}
variable {s : HeapRun} {total size : Nat}

theorem coalesceFrom_takenFrom (fits : total ≤ chosen.size) :
    ∃ first others, coalesceFrom (takenFrom chosen total) (leftFree front back chosen total) =
        coalesceFrom first others ∧
      Contained (front ++ chosen :: back) (first :: others) := by
  unfold takenFrom leftFree
  by_cases splits : headerSize + 8 ≤ chosen.size - total
  · rw [if_pos splits, if_pos splits]
    have joined := contained_coalesceFrom ⟨chosen.start + total, chosen.size - total⟩
      (front ++ back)
    obtain ⟨rest, others, listed, starts, reaches⟩ :=
      coalesceFrom_head ⟨chosen.start + total, chosen.size - total⟩ (front ++ back)
    rw [listed] at joined ⊢
    have touching : (Block.mk chosen.start total).stop = rest.start := starts.symm
    refine ⟨(Block.mk chosen.start total).join rest, others, ?_, ?_⟩
    · rw [coalesceFrom, if_pos touching]
    · have swallowed : Contained (rest :: others)
          ((Block.mk chosen.start total).join rest :: others) := by
        intro block member
        rcases List.mem_cons.mp member with isRest | behind
        · rw [isRest]
          exact ⟨_, List.mem_cons_self, inside_join_right touching⟩
        · exact ⟨block, List.mem_cons_of_mem _ behind, Inside.refl block⟩
      intro block member
      by_cases same : block = chosen
      · rw [same]
        refine ⟨_, List.mem_cons_self, Nat.le_refl _, ?_⟩
        rw [Block.join_stop touching]
        unfold Block.stop at reaches ⊢
        simp only at reaches
        omega
      · refine (joined.trans swallowed) block (List.mem_cons_of_mem _ ?_)
        simp only [List.mem_append, List.mem_cons] at member ⊢
        exact member.imp_right fun listed => listed.resolve_left same
  · rw [if_neg splits, if_neg splits]
    refine ⟨chosen, front ++ back, rfl, fun block member => ⟨block, ?_, Inside.refl block⟩⟩
    simp only [List.mem_append, List.mem_cons] at member ⊢
    tauto

theorem contained_round_trip (fits : total ≤ chosen.size) :
    Contained (front ++ chosen :: back)
      (coalesceFrom (takenFrom chosen total) (leftFree front back chosen total)) := by
  obtain ⟨first, others, same, contained⟩ := @coalesceFrom_takenFrom front back chosen total fits
  rw [same]
  exact contained.trans (contained_coalesceFrom first others)

theorem count_round_trip (fits : total ≤ chosen.size) (place : Nat) :
    count (coalesceFrom (takenFrom chosen total) (leftFree front back chosen total)) place =
      count (front ++ chosen :: back) place := by
  rw [count_coalesceFrom, count_cons, count_append, count_cons]
  unfold takenFrom leftFree
  by_cases splits : headerSize + 8 ≤ chosen.size - total
  · have cut := count_split chosen fits place
    rw [if_pos splits, if_pos splits, count_coalesceFrom, count_cons, count_append]
    omega
  · have whole : Block.mk chosen.start chosen.size = chosen := rfl
    rw [if_neg splits, if_neg splits, count_append, whole]
    omega

/-- `heap_alloc` with `heap_free` behind it, as changes of the list of free blocks. -/
theorem Tiled.round_trip {ptr : Nat} {taken : Heap} (tiled : Tiled ⟨heap, live⟩ free)
    (unwrapped : size + 15 < uint32Size) (returned : heapAlloc heap size = some (some ptr, taken)) :
    ∃ after newFree, heapFree taken (some ptr) = some after ∧ Tiled ⟨after, live⟩ newFree ∧
      (∀ place, count newFree place = count free place) ∧ Contained free newFree := by
  rcases tiled.alloc unwrapped with
    ⟨_, null⟩ | ⟨_, front, chosen, back, rfl, _, fits, granted, handed⟩
  · rw [null] at returned
    cases returned
  · rw [granted] at returned
    cases returned
    obtain ⟨after, freed, released⟩ := handed.tiled.release
    have block : Allocation.block taken ⟨chosen.start + headerSize, size⟩ =
        takenFrom chosen (allocTotal size) := by
      rw [← handed.block]
      unfold Allocation.block
      rw [Nat.add_sub_cancel]
    rw [block] at released
    exact ⟨after, _, freed, released, count_round_trip fits, contained_round_trip fits⟩

/-! ### Which requests succeed -/

/-- Cutting a block of the list ends, also where the bytes asked for have wrapped to
none and the block stays in the list without a byte. -/
theorem Tiled.takeBlock_returns (tiled : Tiled ⟨heap, live⟩ (front ++ chosen :: back))
    (fits : total ≤ chosen.size) :
    ∃ after, takeBlock heap total chosen.start (front.map Block.start).getLast? = some after := by
  have removed := (removeFromList_spec tiled.lists).1
  have listed : chosen ∈ front ++ chosen :: back :=
    List.mem_append_right _ List.mem_cons_self
  have stop : chosen.start + chosen.size < uint32Size := tiled.stop_lt (Tiled.mem_free listed)
  have length := tiled.length_lt
  rw [List.length_append, List.length_cons] at length
  unfold takeBlock
  rw [tiled.lists.sizes chosen listed]
  simp only
  split
  · rename_i splits
    unfold headerSize at splits
    have below : chosen.start + total < chosen.stop := by
      unfold Block.stop
      omega
    have fragOutside := tiled.start_ne (Nat.le_add_right chosen.start total) below
    generalize removeFromList heap chosen.start (front.map Block.start).getLast? = rest at removed ⊢
    have written := @writeFragment_lists _ _ _ (chosen.size - total) _ total removed fragOutside
      (tiled.start_ne (Nat.le_refl _) (by omega))
    have smaller : (writeFragment rest (chosen.start + total) (chosen.size - total) chosen.start
        total).size (chosen.start + total) ≤ chosen.size - total := by
      simp only [writeFragment, Function.update_apply]
      split
      · omega
      · exact Nat.le_refl _
    generalize writeFragment rest (chosen.start + total) (chosen.size - total) chosen.start total =
      cut at written smaller ⊢
    obtain ⟨after, returned, _⟩ := coalesceForward_spec
      (@prependFree_spec _ (cut.blockAt (chosen.start + total)) _ written rfl fragOutside)
      (by rw [List.length_append]; omega) (by
        intro block member
        rcases List.mem_cons.mp member with isFrag | behind
        · rw [isFrag]
          unfold Heap.blockAt Block.stop
          simp only
          omega
        · exact tiled.stop_lt (Tiled.mem_free (mem_with_middle behind)))
    exact ⟨after, returned⟩
  · exact ⟨_, rfl⟩

theorem Tiled.allocSucceeds_iff (tiled : Tiled s free) (request : Nat) :
    AllocSucceeds s.heap request ↔
      request ≠ 0 ∧ ∃ block ∈ free, allocTotal request ≤ block.size := by
  unfold AllocSucceeds heapAlloc
  by_cases zero : request = 0
  · rw [if_pos (Or.inr zero)]
    simp [zero]
  · rw [if_neg (by simp [tiled.ready, zero])]
    rcases @findFit_spec s.heap (allocTotal request) _ none _ _ tiled.length_lt tiled.lists with
      ⟨small, absent⟩ | ⟨front, chosen, back, rfl, _, fits, found⟩
    · rw [absent]
      simp only [Option.some.injEq, Prod.mk.injEq]
      constructor
      · rintro ⟨ptr, after, impossible, _⟩
        cases impossible
      · rintro ⟨_, block, member, large⟩
        exact absurd large (Nat.not_le.mpr (small block member))
    · rw [found]
      simp only [Option.or_none]
      obtain ⟨after, taken⟩ := tiled.takeBlock_returns fits
      rw [taken]
      exact ⟨fun _ => ⟨zero, chosen, by simp, fits⟩, fun _ => ⟨_, after, rfl⟩⟩

theorem allocSucceeds_of_contained {t : HeapRun} {newFree : List Block} {request : Nat}
    (before : Tiled s free) (after : Tiled t newFree) (contained : Contained free newFree)
    (succeeds : AllocSucceeds s.heap request) : AllocSucceeds t.heap request := by
  obtain ⟨positive, block, listed, fits⟩ := (before.allocSucceeds_iff request).mp succeeds
  obtain ⟨larger, found, within⟩ := contained block listed
  exact (after.allocSucceeds_iff request).mpr
    ⟨positive, larger, found, Nat.le_trans fits within.size_le⟩

/-- The later free list has the bytes of the earlier one, every block of that in one
block, and serves every request that it served. -/
structure KeepsCapacity (before after : Heap) (free newFree : List Block) : Prop where
  lists : before.FreeIs free
  relists : after.FreeIs newFree
  cover : ∀ place, (∃ block ∈ newFree, block.start ≤ place ∧ place < block.stop) ↔
    ∃ block ∈ free, block.start ≤ place ∧ place < block.stop
  contained : ∀ old ∈ free, ∃ block ∈ newFree, block.start ≤ old.start ∧ old.stop ≤ block.stop
  serves : ∀ request, AllocSucceeds before request → AllocSucceeds after request

/-- In every run in which no sum wraps before a block that is free, an allocation
that is freed at once costs no capacity. -/
theorem alloc_free_keepsCapacity (s : HeapRun)
    (reached : Reachable HeapBoot heapStep FirstFitAllowed s) (size : Nat)
    (bounded : size ≤ heapPoolSize) (ptr : Nat) (taken : Heap)
    (returned : heapAlloc s.heap size = some (some ptr, taken)) :
    ∃ after free newFree, heapFree taken (some ptr) = some after ∧
      KeepsCapacity s.heap after free newFree := by
  obtain ⟨free, tiled⟩ := exists_tiled_firstFit reached
  obtain ⟨after, newFree, freed, released, same, contained⟩ :=
    tiled.round_trip (fits_of_le_pool bounded) returned
  refine ⟨after, free, newFree, freed, tiled.lists, released.lists, ?_, contained, ?_⟩
  · intro place
    rw [← covered_iff, ← covered_iff]
    exact covered_iff_of_count (same place)
  · exact fun request succeeds => allocSucceeds_of_contained tiled released contained succeeds

theorem keepsCapacity_of_split :
    ∃ (s : HeapRun) (ptr : Nat) (taken after : Heap) (free newFree : List Block),
      s.live = [⟨120, 8⟩] ∧ s.heap.next 0 = some 128 ∧
      heapAlloc s.heap 8 = some (some ptr, taken) ∧ heapFree taken (some ptr) = some after ∧
      KeepsCapacity s.heap after free newFree := by
  obtain ⟨s, reached, found⟩ :=
    @exists_reachable_of_run HeapRun HeapAction HeapBoot heapStep FirstFitAllowed firstFitCheck
      (fun s => decide (s.live = [⟨120, 8⟩] ∧ s.heap.next 0 = some 128) &&
        (heapAlloc s.heap 8).any fun result => result.1.isSome)
      firstFitAllowed_of_check [.alloc 100, .alloc 8, .free ⟨8, 100⟩] ⟨heapInit, []⟩ rfl
      (by decide +kernel)
  obtain ⟨shape, granted⟩ := Bool.and_eq_true_iff.mp found
  obtain ⟨live, second⟩ := of_decide_eq_true shape
  obtain ⟨result, returned, isSome⟩ := (Option.any_eq_true _ _).mp granted
  obtain ⟨ptr, isPtr⟩ := Option.isSome_iff_exists.mp isSome
  have split : heapAlloc s.heap 8 = some (some ptr, result.2) := by
    rw [returned, ← isPtr]
  obtain ⟨after, free, newFree, freed, keeps⟩ :=
    alloc_free_keepsCapacity s reached 8 (by decide) ptr result.2 split
  exact ⟨s, ptr, result.2, after, free, newFree, live, second, split, freed, keeps⟩

end RoundTrip

end MicrokernelRtos
