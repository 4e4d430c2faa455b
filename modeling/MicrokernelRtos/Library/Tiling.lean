/-
Blocks of consecutive places that tile a range.

The blocks come in a list, in any order.  A tiling is stated by counting: every
place of the range is in exactly one block of the list and every other place in
none.  Counting does not see the order, and cutting a block or joining two
neighbours leaves every count as it is.
-/

import Mathlib.Algebra.BigOperators.Ring.Finset
import Mathlib.Data.List.Count
import Mathlib.Data.List.Chain
import Mathlib.Order.Interval.Finset.Nat

namespace MicrokernelRtos.Tiling

structure Block where
  start : Nat
  size : Nat
  deriving DecidableEq, Repr

def Block.stop (block : Block) : Nat := block.start + block.size

def Block.covers (block : Block) (place : Nat) : Bool :=
  decide (block.start ≤ place) && decide (place < block.stop)

theorem Block.covers_iff {block : Block} {place : Nat} :
    block.covers place = true ↔ block.start ≤ place ∧ place < block.stop := by
  simp [Block.covers]

def Apart (left right : Block) : Prop := left.stop ≤ right.start ∨ right.stop ≤ left.start

theorem Apart.symm {left right : Block} (apart : Apart left right) : Apart right left :=
  Or.symm apart

instance : Std.Symm Apart := ⟨fun _ _ => Apart.symm⟩

/-- How many blocks of the list a place is in. -/
def count (blocks : List Block) (place : Nat) : Nat := blocks.countP fun block => block.covers place

/-- Every place from `low` on and below `high` is in one block, and no other
place is in any. -/
def Tiles (blocks : List Block) (low high : Nat) : Prop :=
  ∀ place, count blocks place = if low ≤ place ∧ place < high then 1 else 0

variable {blocks rest others : List Block} {block other : Block} {low high place : Nat}

theorem mem_with_middle {α : Type} {front back : List α} {middle item : α}
    (member : item ∈ front ++ back) : item ∈ front ++ middle :: back :=
  ((List.sublist_cons_self middle back).append_left front).subset member

theorem count_cons (block : Block) (rest : List Block) (place : Nat) :
    count (block :: rest) place = count rest place + if block.covers place then 1 else 0 :=
  List.countP_cons

theorem count_append (front back : List Block) (place : Nat) :
    count (front ++ back) place = count front place + count back place :=
  List.countP_append

theorem count_perm (same : blocks.Perm others) (place : Nat) :
    count blocks place = count others place :=
  same.countP_eq _

theorem count_pos_of_mem (member : block ∈ blocks) (inside : block.covers place = true) :
    0 < count blocks place :=
  List.countP_pos_iff.mpr ⟨block, member, inside⟩

theorem count_cut (start front back place : Nat) :
    (if (Block.mk start (front + back)).covers place then 1 else 0) =
      (if (Block.mk start front).covers place then 1 else 0) +
        if (Block.mk (start + front) back).covers place then 1 else 0 := by
  simp only [Block.covers_iff, Block.stop]
  by_cases early : place < start + front
  · have behind : ¬ (start + front ≤ place ∧ place < start + front + back) := by omega
    rw [if_neg behind]
    by_cases inside : start ≤ place
    · rw [if_pos ⟨inside, by omega⟩, if_pos ⟨inside, early⟩]
    · rw [if_neg (by omega), if_neg (by omega)]
  · have before : ¬ (start ≤ place ∧ place < start + front) := by omega
    rw [if_neg before, Nat.zero_add]
    by_cases inside : place < start + front + back
    · rw [if_pos ⟨by omega, by omega⟩, if_pos ⟨by omega, inside⟩]
    · rw [if_neg (by omega), if_neg (by omega)]

theorem count_split {front : Nat} (block : Block) (fits : front ≤ block.size) (place : Nat) :
    (if block.covers place then 1 else 0) =
      (if (Block.mk block.start front).covers place then 1 else 0) +
        if (Block.mk (block.start + front) (block.size - front)).covers place then 1 else 0 := by
  have cut := count_cut block.start front (block.size - front) place
  rw [Nat.add_sub_cancel' fits] at cut
  exact cut

theorem count_cut_cons (start front back : Nat) (rest : List Block) (place : Nat) :
    count (Block.mk start front :: Block.mk (start + front) back :: rest) place =
      count (Block.mk start (front + back) :: rest) place := by
  rw [count_cons, count_cons, count_cons, count_cut]
  omega

/-! ### What a tiling says of its blocks -/

theorem Tiles.congr (tiles : Tiles blocks low high)
    (same : ∀ place, count others place = count blocks place) : Tiles others low high :=
  fun place => (same place).trans (tiles place)

theorem Tiles.exists_cover (tiles : Tiles blocks low high) (above : low ≤ place)
    (below : place < high) : ∃ block ∈ blocks, block.covers place = true := by
  have once := tiles place
  rw [if_pos ⟨above, below⟩] at once
  exact List.countP_pos_iff.mp (by unfold count at once; omega)

theorem Tiles.range (tiles : Tiles blocks low high) (member : block ∈ blocks)
    (inside : block.covers place = true) : low ≤ place ∧ place < high := by
  have some := count_pos_of_mem member inside
  rw [tiles place] at some
  by_contra outside
  rw [if_neg outside] at some
  omega

theorem Tiles.within (tiles : Tiles blocks low high) (member : block ∈ blocks)
    (positive : 0 < block.size) : low ≤ block.start ∧ block.stop ≤ high := by
  have first : block.covers block.start = true :=
    Block.covers_iff.mpr ⟨Nat.le_refl _, by unfold Block.stop; omega⟩
  have last : block.covers (block.stop - 1) = true :=
    Block.covers_iff.mpr (by unfold Block.stop; omega)
  have lower := tiles.range member first
  have upper := tiles.range member last
  exact ⟨lower.1, by omega⟩

theorem exists_shared (left : 0 < block.size) (right : 0 < other.size)
    (touching : ¬ Apart block other) :
    ∃ place, block.covers place = true ∧ other.covers place = true := by
  unfold Apart Block.stop at touching
  refine ⟨max block.start other.start, Block.covers_iff.mpr ?_, Block.covers_iff.mpr ?_⟩
  · unfold Block.stop
    omega
  · unfold Block.stop
    omega

theorem apart_of_count (positive : ∀ block ∈ blocks, 0 < block.size)
    (once : ∀ place, count blocks place ≤ 1) : blocks.Pairwise Apart := by
  induction blocks with
  | nil => exact List.Pairwise.nil
  | cons first rest ih =>
      rw [List.pairwise_cons]
      constructor
      · intro later member
        by_contra touching
        obtain ⟨place, inFirst, inLater⟩ := exists_shared (positive first List.mem_cons_self)
          (positive later (List.mem_cons_of_mem first member)) touching
        have twice := once place
        rw [count_cons, if_pos inFirst] at twice
        have again := count_pos_of_mem member inLater
        omega
      · refine ih (fun block member => positive block (List.mem_cons_of_mem first member)) ?_
        intro place
        have bound := once place
        rw [count_cons] at bound
        omega

theorem count_le_one (apart : blocks.Pairwise Apart) (place : Nat) : count blocks place ≤ 1 := by
  induction blocks with
  | nil => exact Nat.zero_le 1
  | cons first rest ih =>
      obtain ⟨separate, later⟩ := List.pairwise_cons.mp apart
      rw [count_cons]
      by_cases inFirst : first.covers place = true
      · have none : count rest place = 0 := by
          apply List.countP_eq_zero.mpr
          intro other member inOther
          rw [Block.covers_iff] at inFirst inOther
          rcases separate other member with before | behind
          · omega
          · omega
        rw [if_pos inFirst, none]
      · rw [if_neg inFirst]
        exact ih later

theorem covered_iff_of_count (same : count blocks place = count others place) :
    (∃ block ∈ blocks, block.covers place = true) ↔
      ∃ block ∈ others, block.covers place = true := by
  rw [← List.countP_pos_iff (p := fun block : Block => block.covers place),
    ← List.countP_pos_iff (p := fun block : Block => block.covers place)]
  unfold count at same
  rw [same]

theorem Tiles.pairwise (tiles : Tiles blocks low high)
    (positive : ∀ block ∈ blocks, 0 < block.size) : blocks.Pairwise Apart := by
  refine apart_of_count positive fun place => ?_
  rw [tiles place]
  split <;> omega

theorem tiles_single (start size : Nat) : Tiles [⟨start, size⟩] start (start + size) := by
  intro place
  rw [count_cons]
  simp only [Block.covers_iff, Block.stop, count, List.countP_nil, Nat.zero_add]

theorem Tiles.eq_single (tiles : Tiles [block] low high) (positive : 0 < block.size)
    (nonempty : low < high) : block = ⟨low, high - low⟩ := by
  obtain ⟨lower, upper⟩ := tiles.within List.mem_cons_self positive
  obtain ⟨first, isFirst, coversLow⟩ := tiles.exists_cover (Nat.le_refl low) nonempty
  obtain ⟨last, isLast, coversHigh⟩ :=
    tiles.exists_cover (show low ≤ high - 1 by omega) (by omega)
  rw [List.mem_singleton] at isFirst isLast
  rw [isFirst, Block.covers_iff] at coversLow
  rw [isLast, Block.covers_iff] at coversHigh
  unfold Block.stop at upper coversHigh
  cases block with
  | mk start size =>
      simp only [Block.mk.injEq]
      simp only at lower upper coversLow coversHigh
      omega

theorem Tiles.start_eq (tiles : Tiles (block :: rest) low high)
    (positive : 0 < block.size) (first : ∀ later ∈ rest, block.start < later.start) :
    block.start = low := by
  obtain ⟨lower, upper⟩ := tiles.within List.mem_cons_self positive
  have nonempty : low < high := by
    unfold Block.stop at upper
    omega
  obtain ⟨lowest, member, coversLow⟩ := tiles.exists_cover (Nat.le_refl low) nonempty
  rw [Block.covers_iff] at coversLow
  rcases List.mem_cons.mp member with same | later
  · rw [same] at coversLow
    omega
  · have behind := first lowest later
    omega

theorem Tiles.tail (tiles : Tiles (block :: rest) low high) (positive : 0 < block.size)
    (first : block.start = low) : Tiles rest block.stop high := by
  intro place
  have bound := (tiles.within List.mem_cons_self positive).2
  have once := tiles place
  rw [count_cons] at once
  simp only [Block.covers_iff] at once
  by_cases inside : block.start ≤ place ∧ place < block.stop
  · rw [if_pos inside, if_pos ⟨by omega, by omega⟩] at once
    rw [if_neg (by omega)]
    omega
  · rw [if_neg inside, Nat.add_zero] at once
    rw [once]
    by_cases outside : low ≤ place ∧ place < high
    · rw [if_pos outside, if_pos ⟨by omega, by omega⟩]
    · rw [if_neg outside, if_neg]
      have extent : block.start < block.stop := by unfold Block.stop; omega
      omega

/-! ### How many places the blocks have -/

def totalSize (blocks : List Block) : Nat := (blocks.map Block.size).sum

theorem sum_covers (below : block.stop ≤ high) :
    ∑ place ∈ Finset.range high, (if block.covers place then 1 else 0) = block.size := by
  have places : (Finset.range high).filter (fun place => block.covers place = true) =
      Finset.Ico block.start block.stop := by
    ext place
    rw [Finset.mem_filter, Finset.mem_range, Finset.mem_Ico, Block.covers_iff]
    omega
  rw [← Finset.card_filter, places, Nat.card_Ico]
  unfold Block.stop
  omega

theorem sum_count
    (below : ∀ block ∈ blocks, block.stop ≤ high) :
    ∑ place ∈ Finset.range high, count blocks place = totalSize blocks := by
  induction blocks with
  | nil => exact Finset.sum_const_zero
  | cons block rest ih =>
      have later := ih fun other member => below other (List.mem_cons_of_mem block member)
      rw [Finset.sum_congr rfl fun place _ => count_cons block rest place, Finset.sum_add_distrib,
        later, sum_covers (below block List.mem_cons_self), Nat.add_comm]
      rfl

theorem Tiles.totalSize_eq (tiles : Tiles blocks low high)
    (positive : ∀ block ∈ blocks, 0 < block.size) : totalSize blocks = high - low := by
  have below : ∀ block ∈ blocks, block.stop ≤ high := fun block member =>
    (tiles.within member (positive block member)).2
  have range : (Finset.range high).filter (fun place => low ≤ place ∧ place < high) =
      Finset.Ico low high := by
    ext place
    rw [Finset.mem_filter, Finset.mem_range, Finset.mem_Ico]
    omega
  rw [← sum_count below, Finset.sum_congr rfl fun place _ => tiles place, ← Finset.card_filter,
    range, Nat.card_Ico]

theorem totalSize_append (front back : List Block) :
    totalSize (front ++ back) = totalSize front + totalSize back := by
  unfold totalSize
  rw [List.map_append, List.sum_append]

/-! ### Joining neighbours

One pass over the list joins a block with the block behind it in the list when
that is also the block behind it in the range. -/

def Block.join (block after : Block) : Block := ⟨block.start, block.size + after.size⟩

theorem Block.join_stop (touching : block.stop = other.start) :
    (block.join other).stop = other.stop := by
  unfold Block.stop at touching
  unfold Block.join Block.stop
  simp only
  omega

/-- The pass from a block on, over the blocks behind it in the list. -/
def coalesceFrom (block : Block) : List Block → List Block
  | [] => [block]
  | after :: rest =>
      if block.stop = after.start then coalesceFrom (block.join after) rest
      else block :: coalesceFrom after rest

theorem count_coalesceFrom (block : Block) (rest : List Block) (place : Nat) :
    count (coalesceFrom block rest) place = count (block :: rest) place := by
  induction rest generalizing block with
  | nil => rfl
  | cons after rest ih =>
      rw [coalesceFrom]
      split
      · rename_i touching
        rw [ih]
        have cut := count_cut_cons block.start block.size after.size rest place
        rw [show block.start + block.size = after.start from touching] at cut
        exact cut.symm
      · rw [count_cons, ih, count_cons block]

theorem forall_coalesceFrom {holds : Block → Prop}
    (closed : ∀ block other, holds block → holds other → block.stop = other.start →
      holds (block.join other))
    (every : ∀ member ∈ block :: rest, holds member) :
    ∀ member ∈ coalesceFrom block rest, holds member := by
  induction rest generalizing block with
  | nil => exact every
  | cons after rest ih =>
      have first := every block List.mem_cons_self
      have later : ∀ member ∈ after :: rest, holds member := fun member inside =>
        every member (List.mem_cons_of_mem block inside)
      rw [coalesceFrom]
      split
      · rename_i touching
        apply ih
        intro member inside
        rcases List.mem_cons.mp inside with same | behind
        · rw [same]
          exact closed block after first (later after List.mem_cons_self) touching
        · exact later member (List.mem_cons_of_mem after behind)
      · intro member inside
        rcases List.mem_cons.mp inside with same | behind
        · rw [same]
          exact first
        · exact ih later member behind

theorem coalesceFrom_starts (block : Block) (rest : List Block) :
    ((coalesceFrom block rest).map Block.start).Sublist ((block :: rest).map Block.start) := by
  induction rest generalizing block with
  | nil => exact List.Sublist.refl _
  | cons after rest ih =>
      rw [coalesceFrom]
      split
      · have joined := ih (block.join after)
        rw [List.map_cons] at joined ⊢
        exact joined.trans ((List.sublist_cons_self after.start _).cons_cons block.start)
      · rw [List.map_cons]
        exact (ih after).cons_cons block.start

theorem coalesceFrom_head (block : Block) (rest : List Block) :
    ∃ first others, coalesceFrom block rest = first :: others ∧ first.start = block.start ∧
      block.stop ≤ first.stop := by
  induction rest generalizing block with
  | nil => exact ⟨block, [], rfl, rfl, Nat.le_refl _⟩
  | cons after rest ih =>
      rw [coalesceFrom]
      split
      · obtain ⟨first, others, listed, starts, reaches⟩ := ih (block.join after)
        refine ⟨first, others, listed, starts, Nat.le_trans ?_ reaches⟩
        unfold Block.join Block.stop
        simp only
        omega
      · exact ⟨block, _, rfl, rfl, Nat.le_refl _⟩

def Inside (block other : Block) : Prop := other.start ≤ block.start ∧ block.stop ≤ other.stop

theorem Inside.refl (block : Block) : Inside block block := ⟨Nat.le_refl _, Nat.le_refl _⟩

theorem Inside.trans {third : Block} (inner : Inside block other) (outer : Inside other third) :
    Inside block third :=
  ⟨Nat.le_trans outer.1 inner.1, Nat.le_trans inner.2 outer.2⟩

theorem Inside.size_le (within : Inside block other) : block.size ≤ other.size := by
  obtain ⟨starts, stops⟩ := within
  unfold Block.stop at stops
  omega

theorem Apart.of_inside {small : Block} (apart : Apart block other)
    (within : Inside small block) : Apart small other := by
  unfold Inside at within
  unfold Apart at apart ⊢
  omega

theorem inside_join_left (block after : Block) : Inside block (block.join after) := by
  refine ⟨Nat.le_refl _, ?_⟩
  unfold Block.join Block.stop
  simp only
  omega

theorem inside_join_right (touching : block.stop = other.start) :
    Inside other (block.join other) := by
  refine ⟨?_, Nat.le_of_eq (Block.join_stop touching).symm⟩
  change block.start ≤ other.start
  unfold Block.stop at touching
  omega

/-- Every block of the one list lies inside a single block of the other. -/
def Contained (blocks others : List Block) : Prop :=
  ∀ block ∈ blocks, ∃ other ∈ others, Inside block other

theorem Contained.trans {third : List Block} (inner : Contained blocks others)
    (outer : Contained others third) : Contained blocks third := by
  intro block member
  obtain ⟨middle, listed, within⟩ := inner block member
  obtain ⟨last, found, around⟩ := outer middle listed
  exact ⟨last, found, within.trans around⟩

theorem contained_coalesceFrom (block : Block) (rest : List Block) :
    Contained (block :: rest) (coalesceFrom block rest) := by
  induction rest generalizing block with
  | nil => exact fun old member => ⟨old, member, Inside.refl old⟩
  | cons after rest ih =>
      rw [coalesceFrom]
      split
      · rename_i touching
        refine Contained.trans ?_ (ih (block.join after))
        intro old member
        rcases List.mem_cons.mp member with isBlock | later
        · rw [isBlock]
          exact ⟨_, List.mem_cons_self, inside_join_left block after⟩
        · rcases List.mem_cons.mp later with isAfter | behind
          · rw [isAfter]
            exact ⟨_, List.mem_cons_self, inside_join_right touching⟩
          · exact ⟨old, List.mem_cons_of_mem _ behind, Inside.refl old⟩
      · intro old member
        rcases List.mem_cons.mp member with isBlock | later
        · rw [isBlock]
          exact ⟨block, List.mem_cons_self, Inside.refl block⟩
        · obtain ⟨merged, listed, within⟩ := ih after old later
          exact ⟨merged, List.mem_cons_of_mem block listed, within⟩

/-- No block ends where the block behind it in the list begins. -/
def Separated (blocks : List Block) : Prop :=
  blocks.IsChain fun block after => block.stop ≠ after.start

/-- The blocks the pass has left behind are separated, for the block it stands at
keeps its start however much it swallows. -/
theorem coalesceFrom_separated (block : Block) (rest : List Block) :
    Separated (coalesceFrom block rest) := by
  induction rest generalizing block with
  | nil => exact List.isChain_singleton block
  | cons after rest ih =>
      rw [coalesceFrom]
      split
      · exact ih (block.join after)
      · rename_i apart
        have later := ih after
        obtain ⟨first, others, listed, starts, _⟩ := coalesceFrom_head after rest
        rw [listed] at later ⊢
        apply List.isChain_cons_cons.mpr
        rw [starts]
        exact ⟨apart, later⟩

def Touching (blocks : List Block) : Prop :=
  blocks.IsChain fun block after => block.stop = after.start

theorem coalesceFrom_ne_nil (block : Block) (rest : List Block) : coalesceFrom block rest ≠ [] := by
  induction rest generalizing block with
  | nil => exact List.cons_ne_nil _ _
  | cons after rest ih =>
      rw [coalesceFrom]
      split
      · exact ih _
      · exact List.cons_ne_nil _ _

/-- Exactly a list of blocks that touch in its order becomes one block. -/
theorem coalesceFrom_single_iff (block : Block) (rest : List Block) :
    (∃ whole, coalesceFrom block rest = [whole]) ↔ Touching (block :: rest) := by
  induction rest generalizing block with
  | nil => exact ⟨fun _ => List.isChain_singleton block, fun _ => ⟨block, rfl⟩⟩
  | cons after rest ih =>
      rw [coalesceFrom]
      by_cases touching : block.stop = after.start
      · rw [if_pos touching, ih]
        unfold Touching
        rw [List.isChain_cons_cons]
        cases rest with
        | nil => simp [touching]
        | cons third others =>
            rw [List.isChain_cons_cons, List.isChain_cons_cons, Block.join_stop touching]
            exact ⟨fun chain => ⟨touching, chain⟩, fun chain => chain.2⟩
      · rw [if_neg touching]
        constructor
        · rintro ⟨whole, single⟩
          exact absurd (List.cons.inj single).2 (coalesceFrom_ne_nil after rest)
        · intro chain
          exact absurd (List.isChain_cons_cons.mp chain).1 touching

/-- In a tiling the blocks touch in the order of the list when that order is
ascending, and only then. -/
theorem Tiles.touching_iff (tiles : Tiles blocks low high)
    (positive : ∀ block ∈ blocks, 0 < block.size) :
    Touching blocks ↔ (blocks.map Block.start).Pairwise (· < ·) := by
  constructor
  · intro chain
    rw [← List.isChain_iff_pairwise, List.isChain_map]
    refine List.IsChain.imp_of_mem_imp ?_ chain
    intro block after member _ touching
    have extent := positive block member
    unfold Block.stop at touching
    omega
  · intro ascending
    induction blocks generalizing low with
    | nil => exact List.isChain_nil
    | cons block rest ih =>
        rw [List.map_cons, List.pairwise_cons] at ascending
        have extent := positive block List.mem_cons_self
        have first : ∀ later ∈ rest, block.start < later.start := fun later member =>
          ascending.1 later.start (List.mem_map_of_mem member)
        have onward := tiles.tail extent (tiles.start_eq extent first)
        have later := fun other member => positive other (List.mem_cons_of_mem block member)
        have chain := ih onward later ascending.2
        cases rest with
        | nil => exact List.isChain_singleton block
        | cons after others =>
            have next := onward.start_eq (later after List.mem_cons_self) fun other member => by
              have order := ascending.2
              rw [List.map_cons, List.pairwise_cons] at order
              exact order.1 other.start (List.mem_map_of_mem member)
            exact List.isChain_cons_cons.mpr ⟨next.symm, chain⟩

end MicrokernelRtos.Tiling
