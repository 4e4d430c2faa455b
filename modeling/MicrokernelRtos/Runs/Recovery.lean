/-
What is left of the heap when every allocation has been freed.

A freed block goes to the front of the free list, and the pass that joins
neighbours compares a block with the block behind it in the list only.  So the
pool is one block again exactly when the last free puts the blocks of the list
into the order of their addresses.
-/

import MicrokernelRtos.Runs.Allocation

namespace MicrokernelRtos

open Linked Tiling Transition

variable {heap after : Heap} {s : HeapRun} {allocation : Allocation} {free : List Block}

/-- The free list is a single block of `RTOS_HEAP_POOL_SIZE` bytes. -/
structure SingleBlock (heap : Heap) : Prop where
  first : heap.freeList = some 0
  last : heap.next 0 = none
  size : heap.size 0 = heapPoolSize

def AllocSucceeds (heap : Heap) (size : Nat) : Prop :=
  ∃ ptr after, heapAlloc heap size = some (some ptr, after)

/-- The pool is one block, and what could be allocated after `heap_init` can be
allocated again. -/
def Recovered (heap : Heap) : Prop :=
  SingleBlock heap ∧ ∀ size, AllocSucceeds heapInit size → AllocSucceeds heap size

def LowestInOrder (s : HeapRun) (allocation : Allocation) : Prop :=
  ∃ free, Path s.heap.next s.heap.freeList free none ∧
    ((allocation.ptr - headerSize) :: free).Pairwise (· < ·)

/-- The only live block is freed where that puts the list in order. -/
def LastFreeInOrder (s : HeapRun) : HeapAction → Prop
  | .free allocation => s.live = [allocation] → LowestInOrder s allocation
  | _ => True

/-! ### Requests to a single block -/

theorem singleBlock_init : SingleBlock heapInit := ⟨rfl, rfl, rfl⟩

theorem SingleBlock.lists (single : SingleBlock heap) : heap.FreeIs [⟨0, heapPoolSize⟩] where
  links := ⟨single.first, single.last⟩
  sizes := by
    intro block member
    rw [List.mem_singleton.mp member]
    exact single.size
  distinct := List.nodup_singleton _

theorem coalesceForward_last {walk : Nat} (first : heap.freeList = some walk)
    (last : heap.next walk = none) : coalesceForward heap = some heap := by
  rw [coalesceForward, first, show heapPoolSize = 32767 + 1 from rfl, coalesceLoop, last]

theorem takeBlock_single (single : SingleBlock heap) (total : Nat) :
    ∃ after, takeBlock heap total 0 none = some after := by
  unfold takeBlock
  simp only
  split
  · refine ⟨_, coalesceForward_last rfl ?_⟩
    simp only [prependFree, writeFragment, removeFromList, single.last, Function.update_self]
  · exact ⟨_, rfl⟩

theorem allocSucceeds_iff (ready : heap.heapReady = true) (single : SingleBlock heap)
    (size : Nat) : AllocSucceeds heap size ↔ size ≠ 0 ∧ allocTotal size ≤ heapPoolSize := by
  unfold AllocSucceeds heapAlloc
  by_cases zero : size = 0
  · rw [if_pos (Or.inr zero)]
    simp [zero]
  · rw [if_neg (by simp [ready, zero])]
    rcases @findFit_spec heap (allocTotal size) _ none _ _ (show 1 < heapPoolSize by decide)
      single.lists with
      ⟨small, absent⟩ | ⟨front, chosen, back, split, _, fits, found⟩
    · have tooLarge := small _ List.mem_cons_self
      simp only at tooLarge
      rw [absent]
      simp only [Option.some.injEq, Prod.mk.injEq]
      constructor
      · rintro ⟨ptr, after, impossible, _⟩
        cases impossible
      · rintro ⟨_, fits⟩
        omega
    · obtain ⟨rfl, rfl⟩ : front = [] ∧ chosen = ⟨0, heapPoolSize⟩ := by
        cases front with
        | nil => exact ⟨rfl, (List.cons.inj split).1.symm⟩
        | cons first rest => simp at split
      rw [found]
      simp only [List.map_nil, List.getLast?_nil, Option.or_none]
      obtain ⟨after, taken⟩ := takeBlock_single single (allocTotal size)
      rw [taken]
      exact ⟨fun _ => ⟨zero, fits⟩, fun _ => ⟨_, after, rfl⟩⟩

theorem SingleBlock.recovered (ready : heap.heapReady = true) (single : SingleBlock heap) :
    Recovered heap := by
  refine ⟨single, fun size succeeds => ?_⟩
  rw [allocSucceeds_iff ready single]
  exact (allocSucceeds_iff rfl singleBlock_init size).mp succeeds

/-! ### The last free -/

theorem Tiled.singleBlock_iff (tiled : Tiled s free) (empty : s.live = []) :
    SingleBlock s.heap ↔ ∃ whole, free = [whole] := by
  constructor
  · intro single
    have same := @Path.unique _ _ _ _ [0] tiled.lists.links ⟨single.first, single.last⟩
    cases free with
    | nil => simp at same
    | cons whole rest =>
        cases rest with
        | nil => exact ⟨whole, rfl⟩
        | cons _ _ => simp at same
  · rintro ⟨whole, rfl⟩
    have tiles := tiled.tiles
    have positive := tiled.positive whole (Tiled.mem_free List.mem_cons_self)
    rw [empty, List.map_nil, List.append_nil] at tiles
    have isPool := tiles.eq_single positive (by decide)
    subst isPool
    exact ⟨tiled.lists.links.1, tiled.lists.links.2,
      tiled.lists.sizes _ List.mem_cons_self⟩

/-- The last free makes the pool one block exactly when the freed block lies below
a list in order. -/
theorem Tiled.release_recovers_iff (tiled : Tiled ⟨heap, [allocation]⟩ free)
    (returned : heapFree heap (some allocation.ptr) = some after) :
    Recovered after ↔ LowestInOrder ⟨heap, [allocation]⟩ allocation := by
  obtain ⟨result, same, released⟩ := tiled.release
  cases returned.symm.trans same
  have positive : ∀ block ∈ allocation.block heap :: free, 0 < block.size := by
    intro block member
    refine tiled.positive block ?_
    simp only [List.map_cons, List.map_nil, List.mem_append, List.mem_cons] at member ⊢
    exact member.elim (fun isFreed => Or.inr (Or.inl isFreed)) Or.inl
  have tiles : Tiles (allocation.block heap :: free) 0 heapPoolSize :=
    tiled.tiles.congr fun place => by
      rw [count_append, count_cons]
      change _ = count free place + count [allocation.block heap] place
      rw [count_cons]
      simp [count]
  have single : Recovered after ↔ SingleBlock after :=
    ⟨fun recovered => recovered.1, fun whole => whole.recovered released.ready⟩
  have ordered : LowestInOrder ⟨heap, [allocation]⟩ allocation ↔
      ((allocation.block heap :: free).map Block.start).Pairwise (· < ·) := by
    constructor
    · rintro ⟨others, path, ascending⟩
      rw [path.unique tiled.lists.links] at ascending
      exact ascending
    · intro ascending
      exact ⟨_, tiled.lists.links, ascending⟩
  rw [single, released.singleBlock_iff rfl, coalesceFrom_single_iff, tiles.touching_iff positive,
    ordered]

/-! ### Whole runs -/

def RecoveryAllowed (s : HeapRun) (action : HeapAction) : Prop :=
  HeapAllowed s action ∧ LastFreeInOrder s action

theorem live_eq_of_erase {live : List Allocation} (member : allocation ∈ live)
    (empty : live.erase allocation = []) : live = [allocation] := by
  have same := List.perm_cons_erase member
  rw [empty] at same
  exact List.perm_singleton.mp same

theorem recovered_of_reachable (reached : Reachable HeapBoot heapStep RecoveryAllowed s) :
    (∃ free, Tiled s free) ∧ (s.live = [] → Recovered s.heap) := by
  refine reached.invariant (fun s => (∃ free, Tiled s free) ∧ (s.live = [] → Recovered s.heap))
    ?_ ?_
  · intro s boot
    rw [boot]
    exact ⟨⟨_, tiled_init⟩, fun _ => singleBlock_init.recovered rfl⟩
  · intro s action after holds allowed taken
    obtain ⟨⟨free, tiled⟩, recovers⟩ := holds
    obtain ⟨result, newFree, returned, kept⟩ := tiled.step allowed.1
    rw [taken] at returned
    cases returned
    refine ⟨⟨newFree, kept⟩, fun empty => ?_⟩
    cases action with
    | alloc size =>
        rcases tiled.alloc (fits_of_le_pool allowed.1) with
          ⟨_, null⟩ | ⟨heap, _, _, _, _, _, _, success, _⟩
        · simp only [heapStep, null, Option.map_some, Option.some.injEq] at taken
          subst taken
          exact recovers empty
        · simp only [heapStep, success, Option.map_some, Option.some.injEq] at taken
          subst taken
          simp at empty
    | free allocation =>
        obtain ⟨heap, freed, same⟩ := Option.map_eq_some_iff.mp taken
        subst same
        have last : s.live = [allocation] := live_eq_of_erase allowed.1 empty
        cases s with
        | mk old live =>
            simp only at last
            subst last
            exact (tiled.release_recovers_iff freed).mpr (allowed.2 rfl)
    | write size next =>
        cases taken
        have single := (recovers empty).1
        have unchanged := allowed.1 0 (by simp only at empty; simp [HeapRun.NotGiven, empty])
        exact SingleBlock.recovered tiled.ready
          ⟨single.first, unchanged.2.trans single.last, unchanged.1.trans single.size⟩

/-- In every run in which the last live block is only freed where that puts the
list in order, the heap has recovered whenever nothing is live; and for no other
last free, in whatever run, it has. -/
theorem recovered_iff_lastFreeInOrder (s : HeapRun) :
    (Reachable HeapBoot heapStep RecoveryAllowed s → s.live = [] → Recovered s.heap) ∧
      ∀ allocation after, Reachable HeapBoot heapStep HeapAllowed s → s.live = [allocation] →
        heapStep s (.free allocation) = some after →
        (Recovered after.heap ↔ LowestInOrder s allocation) := by
  refine ⟨fun reached => (recovered_of_reachable reached).2, ?_⟩
  intro allocation after reached last taken
  obtain ⟨free, tiled⟩ := exists_tiled reached
  obtain ⟨heap, freed, same⟩ := Option.map_eq_some_iff.mp taken
  subst same
  cases s with
  | mk old live =>
      simp only at last
      subst last
      exact tiled.release_recovers_iff freed

def recoveryCheck (s : HeapRun) (action : HeapAction) : Bool :=
  heapCheck s action &&
    match action, s.heap.freeList with
    | .free allocation, some other =>
        decide (s.live ≠ [allocation] ∨
          s.heap.next other = none ∧ allocation.ptr - headerSize < other)
    | .free _, none => false
    | _, _ => true

theorem recoveryAllowed_of_check (s : HeapRun) (action : HeapAction)
    (checked : recoveryCheck s action = true) : RecoveryAllowed s action := by
  obtain ⟨permitted, order⟩ := Bool.and_eq_true_iff.mp checked
  refine ⟨heapAllowed_of_check s action permitted, ?_⟩
  cases action with
  | alloc size => trivial
  | write size next => trivial
  | free allocation =>
      intro last
      cases first : s.heap.freeList with
      | none =>
          rw [first] at order
          cases order
      | some other =>
          rw [first] at order
          rcases of_decide_eq_true order with notLast | ⟨alone, below⟩
          · exact absurd last notLast
          · refine ⟨[other], ⟨first, alone⟩, ?_⟩
            simpa using below

theorem recovered_after_descending_frees :
    ∃ s, Reachable HeapBoot heapStep RecoveryAllowed s ∧ s.live = [] ∧ Recovered s.heap := by
  obtain ⟨s, reached, found⟩ :=
    @exists_reachable_of_run HeapRun HeapAction HeapBoot heapStep RecoveryAllowed recoveryCheck
      (fun s => decide (s.live = [])) recoveryAllowed_of_check
      [.alloc 8, .alloc 8, .free ⟨24, 8⟩, .free ⟨8, 8⟩] ⟨heapInit, []⟩ rfl (by decide +kernel)
  have empty := of_decide_eq_true found
  exact ⟨s, reached, empty, (recovered_iff_lastFreeInOrder s).1 reached empty⟩

/-- Two blocks that are freed in the order of their addresses stay apart, and a
request for the whole pool fails from then on. -/
theorem not_recovered_after_ascending_frees :
    ∃ s, Reachable HeapBoot heapStep HeapAllowed s ∧ s.live = [] ∧
      s.heap.freeList = some 16 ∧ s.heap.next 16 = some 0 ∧
      AllocSucceeds heapInit 32760 ∧ ¬ AllocSucceeds s.heap 32760 ∧ ¬ Recovered s.heap := by
  obtain ⟨s, reached, found⟩ :=
    @exists_reachable_of_run HeapRun HeapAction HeapBoot heapStep HeapAllowed heapCheck
      (fun s => decide (s.live = [] ∧ s.heap.freeList = some 16 ∧ s.heap.next 16 = some 0 ∧
        (heapAlloc s.heap 32760).map Prod.fst = some none))
      heapAllowed_of_check [.alloc 8, .alloc 8, .free ⟨8, 8⟩, .free ⟨24, 8⟩] ⟨heapInit, []⟩ rfl
      (by decide +kernel)
  obtain ⟨empty, first, second, refused⟩ := of_decide_eq_true found
  have granted : AllocSucceeds heapInit 32760 :=
    (allocSucceeds_iff rfl singleBlock_init 32760).mpr (by decide)
  have fails : ¬ AllocSucceeds s.heap 32760 := by
    rintro ⟨ptr, after, returned⟩
    rw [returned] at refused
    cases refused
  exact ⟨s, reached, empty, first, second, granted, fails,
    fun recovered => fails (recovered.2 32760 granted)⟩

end MicrokernelRtos
