/-
What `heap_alloc` finds, for every size of 32 bits.

The rounded size and the header are added in 32 bits.  From 2^32 - 15 on the sum
wraps, to 0 or to 8, and the first block of the free list is large enough for
what is left of it.
-/

import MicrokernelRtos.Runs.Allocation

namespace MicrokernelRtos

open Linked Tiling Transition

def allocNeed (size : Nat) : Nat := (size + 7) / 8 * 8 + headerSize

/-- `heap_alloc` returns NULL and leaves the heap exactly if no block of the free
list is large enough, and the first one that is otherwise.  It cannot give more
than the pool. -/
structure ExactFirstFit (heap : Heap) (free : List Block) (size : Nat) : Prop where
  null_iff : heapAlloc heap size = some (none, heap) ↔ ∀ block ∈ free, block.size < allocNeed size
  first : ∀ chosen, free.find? (fun block => decide (allocNeed size ≤ block.size)) = some chosen →
    ∃ after, heapAlloc heap size = some (some (chosen.start + headerSize), after)
  oversized : heapPoolSize < size → heapAlloc heap size = some (none, heap)

/-- The sum does not wrap, or there is nothing to find. -/
def Unwrapped (s : HeapRun) (size : Nat) : Prop :=
  size + 15 < uint32Size ∨ s.heap.freeList = none

/-- Requests of 32 bits, frees of live pointers, and writes of the clients. -/
def AnySizeAllowed (s : HeapRun) : HeapAction → Prop
  | .alloc size => size < uint32Size
  | .free allocation => HeapAllowed s (.free allocation)
  | .write size next => HeapAllowed s (.write size next)

def FirstFitAllowed (s : HeapRun) (action : HeapAction) : Prop :=
  AnySizeAllowed s action ∧ ∀ size, action = .alloc size → Unwrapped s size

variable {s : HeapRun} {free : List Block} {size : Nat}

theorem Tiled.small_of_oversized (tiled : Tiled s free) (large : heapPoolSize < size) :
    ∀ block ∈ free, block.size < allocNeed size := by
  intro block member
  have stop := tiled.stop_le (Tiled.mem_free member)
  unfold Block.stop at stop
  unfold allocNeed headerSize
  omega

theorem find_eq_of_split {front back : List Block} {chosen : Block} {need : Nat}
    (small : ∀ block ∈ front, block.size < need) (fits : need ≤ chosen.size) :
    (front ++ chosen :: back).find? (fun block => decide (need ≤ block.size)) = some chosen := by
  refine List.find?_eq_some_iff_append.mpr ⟨decide_eq_true fits, front, back, rfl, ?_⟩
  intro block member
  simpa using small block member

theorem Tiled.free_eq_nil (tiled : Tiled s free) (empty : s.heap.freeList = none) : free = [] := by
  have path := tiled.lists.links
  rw [empty] at path
  cases free with
  | nil => rfl
  | cons first rest => cases path.1

theorem Tiled.exactFirstFit (tiled : Tiled s free) (positive : 1 ≤ size)
    (unwrapped : Unwrapped s size) : ExactFirstFit s.heap free size := by
  rcases unwrapped with fits | empty
  · have need : allocTotal size = allocNeed size := allocTotal_eq fits
    rcases tiled.alloc fits with
      ⟨small, null⟩ | ⟨after, front, chosen, back, rfl, small, large, returned, _⟩
    · have noFit : ∀ block ∈ free, block.size < allocNeed size := by
        rw [← need]
        exact small.resolve_left (by omega)
      refine ⟨⟨fun _ => noFit, fun _ => null⟩, ?_, fun _ => null⟩
      intro chosen found
      have large : allocNeed size ≤ chosen.size := by simpa using List.find?_some found
      exact absurd (noFit chosen (List.mem_of_find?_eq_some found)) (Nat.not_lt.mpr large)
    · rw [need] at small large
      have member : chosen ∈ front ++ chosen :: back := by simp
      refine ⟨⟨?_, ?_⟩, ?_, ?_⟩
      · intro null
        rw [returned] at null
        cases null
      · exact fun noFit => absurd (noFit chosen member) (Nat.not_lt.mpr large)
      · intro found isFound
        rw [find_eq_of_split small large] at isFound
        cases isFound
        exact ⟨after, returned⟩
      · exact fun oversized => absurd (tiled.small_of_oversized oversized chosen member)
          (Nat.not_lt.mpr large)
  · have null := heapAlloc_of_empty size empty
    rw [tiled.free_eq_nil empty]
    refine ⟨⟨fun _ block member => ?_, fun _ => null⟩, fun chosen found => ?_, fun _ => null⟩
    · cases member
    · cases found

/-- A sum that has wrapped is below every block, so that the first one is taken. -/
theorem Tiled.not_exactFirstFit (tiled : Tiled s free) (isSize : size < uint32Size)
    (wrapped : ¬ Unwrapped s size) : ¬ ExactFirstFit s.heap free size := by
  intro holds
  unfold Unwrapped at wrapped
  rw [not_or] at wrapped
  obtain ⟨wraps, notEmpty⟩ := wrapped
  have total : allocTotal size ≤ 8 := by
    unfold allocTotal headerSize
    unfold uint32Size at *
    omega
  have oversized : heapPoolSize < size := by
    unfold heapPoolSize
    unfold uint32Size at wraps
    omega
  have null := holds.oversized oversized
  unfold heapAlloc at null
  rw [tiled.ready, if_neg (by simp; unfold heapPoolSize at oversized; omega)] at null
  rcases @findFit_spec s.heap (allocTotal size) _ none _ _ tiled.length_lt tiled.lists with
    ⟨small, _⟩ | ⟨front, chosen, back, _, _, _, found⟩
  · cases free with
    | nil => exact notEmpty tiled.lists.links
    | cons first rest =>
        have large := (tiled.sound first (Tiled.mem_free List.mem_cons_self)).2.2
        have below := small first List.mem_cons_self
        omega
  · rw [found] at null
    obtain ⟨_, _, same⟩ := Option.map_eq_some_iff.mp null
    cases same

theorem exists_tiled_firstFit (reached : Reachable HeapBoot heapStep FirstFitAllowed s) :
    ∃ free, Tiled s free := by
  refine reached.invariant (fun s => ∃ free, Tiled s free) ?_ ?_
  · intro s boot
    rw [boot]
    exact ⟨_, tiled_init⟩
  · rintro s action after ⟨free, tiled⟩ allowed taken
    have steps : ∃ after newFree, heapStep s action = some after ∧ Tiled after newFree := by
      cases action with
      | alloc size => exact tiled.alloc_step (allowed.2 size rfl)
      | free allocation => exact tiled.step allowed.1
      | write size next => exact tiled.step allowed.1
    obtain ⟨result, newFree, returned, kept⟩ := steps
    rw [taken] at returned
    cases returned
    exact ⟨newFree, kept⟩

/-- In every run in which no sum wraps before a block that is free, `heap_alloc` is
first fit for a size exactly if the sum does not wrap, or no block is free. -/
theorem exactFirstFit_iff_unwrapped (s : HeapRun)
    (reached : Reachable HeapBoot heapStep FirstFitAllowed s) :
    ∃ free, s.heap.FreeIs free ∧ ∀ size, 1 ≤ size → size < uint32Size →
      (ExactFirstFit s.heap free size ↔ size + 15 < uint32Size ∨ s.heap.freeList = none) := by
  obtain ⟨free, tiled⟩ := exists_tiled_firstFit reached
  refine ⟨free, tiled.lists, fun size positive isSize => ⟨fun holds => ?_, fun unwrapped => ?_⟩⟩
  · by_contra wrapped
    exact tiled.not_exactFirstFit isSize wrapped holds
  · exact tiled.exactFirstFit positive unwrapped

def firstFitCheck (s : HeapRun) : HeapAction → Bool
  | .alloc size => decide (size + 15 < uint32Size)
  | .free allocation => decide (allocation ∈ s.live)
  | .write _ _ => false

theorem firstFitAllowed_of_check (s : HeapRun) (action : HeapAction)
    (checked : firstFitCheck s action = true) : FirstFitAllowed s action := by
  cases action with
  | alloc size =>
      have fits : size + 15 < uint32Size := of_decide_eq_true checked
      refine ⟨Nat.lt_of_le_of_lt (Nat.le_add_right size 15) fits, fun other same => ?_⟩
      cases same
      exact Or.inl fits
  | free allocation =>
      have member : allocation ∈ s.live := of_decide_eq_true checked
      exact ⟨member, fun other same => by cases same⟩
  | write _ _ => cases checked

theorem exactFirstFit_of_largest :
    ∃ (s : HeapRun) (free : List Block), s.live = [⟨8, 100⟩] ∧ s.heap.FreeIs free ∧
      ExactFirstFit s.heap free (uint32Size - 16) := by
  obtain ⟨s, reached, found⟩ :=
    @exists_reachable_of_run HeapRun HeapAction HeapBoot heapStep FirstFitAllowed firstFitCheck
      (fun s => decide (s.live = [⟨8, 100⟩])) firstFitAllowed_of_check
      [.alloc 100, .alloc (uint32Size - 16)] ⟨heapInit, []⟩ rfl (by decide +kernel)
  obtain ⟨free, lists, firstFit⟩ := exactFirstFit_iff_unwrapped s reached
  exact ⟨s, free, of_decide_eq_true found, lists,
    (firstFit (uint32Size - 16) (by decide) (by decide)).mpr (Or.inl (by decide))⟩

/-- The largest request of all is granted, from the whole pool. -/
theorem not_exactFirstFit_of_reachable :
    ¬ ∀ s, Reachable HeapBoot heapStep AnySizeAllowed s → ∃ free, s.heap.FreeIs free ∧
      ∀ size, 1 ≤ size → size < uint32Size → ExactFirstFit s.heap free size := by
  intro always
  obtain ⟨free, lists, firstFit⟩ := always ⟨heapInit, []⟩ (Reachable.initial rfl)
  have null := (firstFit (uint32Size - 1) (by decide) (by decide)).oversized (by decide)
  have granted : (heapAlloc heapInit (uint32Size - 1)).map (fun result => result.1) =
      some (some 8) := by decide +kernel
  rw [null] at granted
  cases granted

end MicrokernelRtos
