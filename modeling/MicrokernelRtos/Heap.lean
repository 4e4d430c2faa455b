/-
heap.c: a first-fit allocator with an explicit free list.

A block is named by the offset of its header in `heap_pool`, and NULL is no
offset.  The two header words are kept, as the fields of a task control block
are, in one function each of the offset.  Two headers at different multiples of
eight have no byte in common, and all headers of the code lie at multiples of
eight.

Over a free list without a cycle every loop ends, and the operations act on the
list of the blocks it stands for.
-/

import MicrokernelRtos.KernelState
import MicrokernelRtos.Library.Tiling

namespace MicrokernelRtos

open Linked Tiling

/-! ### The code -/

def heapPoolSize : Nat := 32768

/-- `sizeof(heap_block_t)` -/
def headerSize : Nat := 8

/-- The headers in `heap_pool`, and the static variables beside it. -/
structure Heap where
  size : Nat → Nat
  next : Nat → Option Nat
  freeList : Option Nat
  heapReady : Bool

def removeFromList (heap : Heap) (blk : Nat) (prev : Option Nat) : Heap :=
  match prev with
  | none =>
      { heap with
        freeList := heap.next blk
        next := Function.update heap.next blk none }
  | some prev =>
      { heap with
        next := Function.update (Function.update heap.next prev (heap.next blk)) blk none }

def prependFree (heap : Heap) (blk : Nat) : Heap :=
  { heap with
    next := Function.update heap.next blk heap.freeList
    freeList := some blk }

/-- `walk->size += walk->next->size; walk->next = walk->next->next;` -/
def swallowNext (heap : Heap) (walk after : Nat) : Heap :=
  { heap with
    size := Function.update heap.size walk ((heap.size walk + heap.size after) % uint32Size)
    next := Function.update heap.next walk (heap.next after) }

/-- The loop of `_coalesce_forward`.  A loop of more steps than the pool has
bytes never ends and has no result. -/
def coalesceLoop : Nat → Heap → Option Nat → Option Heap
  | 0, _, _ => none
  | _ + 1, heap, none => some heap
  | fuel + 1, heap, some walk =>
      match heap.next walk with
      | none => some heap
      | some after =>
          if walk + heap.size walk = after then
            coalesceLoop fuel (swallowNext heap walk after) (some walk)
          else coalesceLoop fuel heap (some after)

def coalesceForward (heap : Heap) : Option Heap := coalesceLoop heapPoolSize heap heap.freeList

def heapInit : Heap where
  size := Function.update (fun _ => 0) 0 heapPoolSize
  next := fun _ => none
  freeList := some 0
  heapReady := true

/-- `(size + 7U) & ~(size_t)7U`, and the header in front.  `size_t` has 32 bits. -/
def allocTotal (size : Nat) : Nat := ((size + 7) % uint32Size / 8 * 8 + headerSize) % uint32Size

/-- The search loop of `heap_alloc`.  It ends with no block, or with the first
block that is large enough and the block in front of it in the list. -/
def findFit (heap : Heap) (total : Nat) :
    Nat → Option Nat → Option Nat → Option (Option (Option Nat × Nat))
  | 0, _, _ => none
  | _ + 1, _, none => some none
  | fuel + 1, prev, some curr =>
      if total ≤ heap.size curr then some (some (prev, curr))
      else findFit heap total fuel (some curr) (heap.next curr)

def writeFragment (heap : Heap) (frag leftover curr total : Nat) : Heap :=
  { heap with
    size := Function.update (Function.update heap.size frag leftover) curr total
    next := Function.update heap.next frag none }

/-- What `heap_alloc` does with the block it has found. -/
def takeBlock (heap : Heap) (total curr : Nat) (prev : Option Nat) : Option Heap :=
  let leftover := heap.size curr - total
  let removed := removeFromList heap curr prev
  if headerSize + 8 ≤ leftover then
    let frag := curr + total
    coalesceForward (prependFree (writeFragment removed frag leftover curr total) frag)
  else some removed

def heapAlloc (heap : Heap) (size : Nat) : Option (Option Nat × Heap) :=
  if heap.heapReady = false ∨ size = 0 then some (none, heap)
  else
    match findFit heap (allocTotal size) heapPoolSize none heap.freeList with
    | none => none
    | some none => some (none, heap)
    | some (some (prev, curr)) =>
        (takeBlock heap (allocTotal size) curr prev).map fun taken =>
          (some (curr + headerSize), taken)

/-- The pointer comes from `heap_alloc`, so that it lies behind a header. -/
def heapFree (heap : Heap) (ptr : Option Nat) : Option Heap :=
  match ptr with
  | none => some heap
  | some ptr =>
      if heap.heapReady = false then some heap
      else coalesceForward (prependFree heap (ptr - headerSize))

/-! ### The free list as a list of blocks -/

/-- A walk from `start` visits these blocks, in this order. -/
structure Heap.ListsFrom (heap : Heap) (start : Option Nat) (blocks : List Block) : Prop where
  links : Path heap.next start (blocks.map Block.start) none
  sizes : ∀ block ∈ blocks, heap.size block.start = block.size
  distinct : (blocks.map Block.start).Nodup

/-- The free list holds these blocks, in this order. -/
def Heap.FreeIs (heap : Heap) (free : List Block) : Prop := heap.ListsFrom heap.freeList free

def Heap.blockAt (heap : Heap) (addr : Nat) : Block := ⟨addr, heap.size addr⟩

theorem Heap.ListsFrom.map_blockAt {heap : Heap} {start : Option Nat} {blocks : List Block}
    (holds : heap.ListsFrom start blocks) : (blocks.map Block.start).map heap.blockAt = blocks := by
  rw [List.map_map]
  conv_rhs => rw [← List.map_id blocks]
  apply List.map_congr_left
  intro block member
  simp only [Function.comp_apply, Heap.blockAt, holds.sizes block member, id]

def Heap.AgreesOutside (after before : Heap) (addrs : List Nat) : Prop :=
  after.heapReady = before.heapReady ∧
    ∀ addr, addr ∉ addrs → after.size addr = before.size addr ∧ after.next addr = before.next addr

theorem Heap.AgreesOutside.trans {last middle first : Heap} {addrs : List Nat}
    (later : last.AgreesOutside middle addrs) (earlier : middle.AgreesOutside first addrs) :
    last.AgreesOutside first addrs := by
  refine ⟨later.1.trans earlier.1, fun addr outside => ?_⟩
  obtain ⟨laterSize, laterNext⟩ := later.2 addr outside
  obtain ⟨earlierSize, earlierNext⟩ := earlier.2 addr outside
  exact ⟨laterSize.trans earlierSize, laterNext.trans earlierNext⟩

theorem Heap.AgreesOutside.mono {after before : Heap} {addrs more : List Nat}
    (agrees : after.AgreesOutside before addrs) (subset : ∀ addr ∈ addrs, addr ∈ more) :
    after.AgreesOutside before more :=
  ⟨agrees.1, fun addr outside => agrees.2 addr fun member => outside (subset addr member)⟩

theorem Heap.ListsFrom.cons {heap : Heap} {start : Option Nat} {block : Block}
    {rest : List Block} (holds : heap.ListsFrom start rest)
    (leads : heap.next block.start = start) (sized : heap.size block.start = block.size)
    (outside : block.start ∉ rest.map Block.start) :
    heap.ListsFrom (some block.start) (block :: rest) where
  links := by
    refine ⟨rfl, ?_⟩
    rw [leads]
    exact holds.links
  sizes := by
    intro member inside
    rcases List.mem_cons.mp inside with same | behind
    · rw [same]
      exact sized
    · exact holds.sizes member behind
  distinct := by
    rw [List.map_cons, List.nodup_cons]
    exact ⟨outside, holds.distinct⟩

theorem Heap.ListsFrom.tail {heap : Heap} {start : Option Nat} {block : Block}
    {rest : List Block} (holds : heap.ListsFrom start (block :: rest)) :
    heap.ListsFrom (heap.next block.start) rest where
  links := holds.links.2
  sizes := fun member inside => holds.sizes member (List.mem_cons_of_mem block inside)
  distinct := (List.nodup_cons.mp holds.distinct).2

theorem Heap.ListsFrom.head_notMem {heap : Heap} {start : Option Nat} {block : Block}
    {rest : List Block} (holds : heap.ListsFrom start (block :: rest)) :
    block.start ∉ rest.map Block.start :=
  (List.nodup_cons.mp holds.distinct).1

theorem Heap.ListsFrom.congr {heap other : Heap} {start : Option Nat} {blocks : List Block}
    (holds : heap.ListsFrom start blocks)
    (agree : ∀ addr ∈ blocks.map Block.start,
      other.size addr = heap.size addr ∧ other.next addr = heap.next addr) :
    other.ListsFrom start blocks where
  links := holds.links.congr fun addr member => (agree addr member).2
  sizes := fun block member =>
    (agree block.start (List.mem_map_of_mem member)).1.trans (holds.sizes block member)
  distinct := holds.distinct

theorem swallowNext_agrees (heap : Heap) (walk after : Nat) :
    (swallowNext heap walk after).AgreesOutside heap [walk] := by
  refine ⟨rfl, fun addr outside => ?_⟩
  have different : addr ≠ walk := fun same => outside (List.mem_singleton.mpr same)
  exact ⟨Function.update_of_ne different _ _, Function.update_of_ne different _ _⟩

theorem Heap.ListsFrom.swallow {heap : Heap} {block follower : Block} {rest : List Block}
    (holds : heap.ListsFrom (some block.start) (block :: follower :: rest))
    (touching : block.stop = follower.start) (bounded : follower.stop < uint32Size) :
    (swallowNext heap block.start follower.start).ListsFrom (some block.start)
      (block.join follower :: rest) := by
  have outside : block.start ∉ rest.map Block.start := fun member =>
    holds.head_notMem (List.mem_cons_of_mem _ member)
  have behind : (swallowNext heap block.start follower.start).ListsFrom
      (heap.next follower.start) rest := by
    apply holds.tail.tail.congr
    intro addr member
    apply (swallowNext_agrees heap block.start follower.start).2
    intro same
    exact outside (List.mem_singleton.mp same ▸ member)
  refine @Heap.ListsFrom.cons _ _ (block.join follower) _ behind (Function.update_self _ _ _) ?_
    outside
  change Function.update heap.size block.start _ block.start = block.size + follower.size
  rw [Function.update_self, holds.sizes block List.mem_cons_self,
    holds.sizes follower (List.mem_cons_of_mem block List.mem_cons_self)]
  apply Nat.mod_eq_of_lt
  unfold Block.stop at touching bounded
  omega

/-- The loop of `_coalesce_forward` from a block of the list on. -/
theorem coalesceLoop_spec {fuel : Nat} {heap : Heap} {block : Block} {rest : List Block}
    (enough : rest.length < fuel) (holds : heap.ListsFrom (some block.start) (block :: rest))
    (bounded : ∀ member ∈ block :: rest, member.stop < uint32Size) :
    ∃ after, coalesceLoop fuel heap (some block.start) = some after ∧
      after.freeList = heap.freeList ∧
      after.ListsFrom (some block.start) (coalesceFrom block rest) ∧
      after.AgreesOutside heap ((block :: rest).map Block.start) := by
  induction rest generalizing fuel heap block with
  | nil =>
      obtain ⟨limit, rfl⟩ : ∃ limit, fuel = limit + 1 := ⟨fuel - 1, by simp at enough; omega⟩
      have last : heap.next block.start = none := holds.links.2
      refine ⟨heap, ?_, rfl, holds, rfl, fun _ _ => ⟨rfl, rfl⟩⟩
      rw [coalesceLoop, last]
  | cons follower rest ih =>
      obtain ⟨limit, rfl⟩ : ∃ limit, fuel = limit + 1 := ⟨fuel - 1, by simp at enough; omega⟩
      have shorter : rest.length < limit := by
        rw [List.length_cons] at enough
        omega
      have follows : heap.next block.start = some follower.start := holds.links.2.1
      have sized := holds.sizes block List.mem_cons_self
      have later : ∀ member ∈ follower :: rest, member.stop < uint32Size := fun member inside =>
        bounded member (List.mem_cons_of_mem block inside)
      rw [coalesceLoop, follows, coalesceFrom]
      simp only
      rw [sized]
      by_cases touching : block.stop = follower.start
      · have joined := later follower List.mem_cons_self
        obtain ⟨after, returned, listed, lists, frame⟩ := ih shorter
          (holds.swallow touching joined) (by
            intro member inside
            rcases List.mem_cons.mp inside with same | behind
            · rw [same, Block.join_stop touching]
              exact joined
            · exact later member (List.mem_cons_of_mem follower behind))
        rw [if_pos touching, if_pos (show block.start + block.size = _ from touching)]
        refine ⟨after, returned, listed, lists, ?_⟩
        apply (frame.mono _).trans ((swallowNext_agrees heap _ _).mono _)
        · intro addr member
          simp only [List.map_cons, List.mem_cons] at member ⊢
          exact member.imp_right Or.inr
        · intro addr member
          simp only [List.map_cons, List.mem_cons]
          exact Or.inl (List.mem_singleton.mp member)
      · obtain ⟨after, returned, listed, lists, frame⟩ := ih shorter (follows ▸ holds.tail) later
        obtain ⟨sameSize, sameNext⟩ := frame.2 block.start holds.head_notMem
        rw [if_neg touching, if_neg (show ¬ block.start + block.size = _ from touching)]
        refine ⟨after, returned, listed, ?_, frame.mono fun addr member =>
          List.mem_cons_of_mem _ member⟩
        refine lists.cons (sameNext.trans follows) (sameSize.trans sized) ?_
        intro member
        exact holds.head_notMem ((coalesceFrom_starts follower rest).subset member)

theorem coalesceForward_spec {heap : Heap} {block : Block} {rest : List Block}
    (holds : heap.FreeIs (block :: rest)) (short : rest.length < heapPoolSize)
    (bounded : ∀ member ∈ block :: rest, member.stop < uint32Size) :
    ∃ after, coalesceForward heap = some after ∧ after.FreeIs (coalesceFrom block rest) ∧
      after.AgreesOutside heap ((block :: rest).map Block.start) := by
  have first : heap.freeList = some block.start := holds.links.1
  have lists : heap.ListsFrom (some block.start) (block :: rest) := first ▸ holds
  obtain ⟨after, returned, listed, joined, frame⟩ := coalesceLoop_spec short lists bounded
  refine ⟨after, ?_, ?_, frame⟩
  · rw [coalesceForward, first]
    exact returned
  · unfold Heap.FreeIs
    rw [listed, first]
    exact joined

theorem coalesceLoop_of_separated {fuel : Nat} {heap : Heap} {block : Block} {rest : List Block}
    (enough : rest.length < fuel) (holds : heap.ListsFrom (some block.start) (block :: rest))
    (separated : Separated (block :: rest)) :
    coalesceLoop fuel heap (some block.start) = some heap := by
  induction rest generalizing fuel block with
  | nil =>
      obtain ⟨limit, rfl⟩ : ∃ limit, fuel = limit + 1 := ⟨fuel - 1, by simp at enough; omega⟩
      have last : heap.next block.start = none := holds.links.2
      rw [coalesceLoop, last]
  | cons follower rest ih =>
      obtain ⟨limit, rfl⟩ : ∃ limit, fuel = limit + 1 := ⟨fuel - 1, by simp at enough; omega⟩
      have shorter : rest.length < limit := by
        rw [List.length_cons] at enough
        omega
      have follows : heap.next block.start = some follower.start := holds.links.2.1
      obtain ⟨apart, later⟩ := List.isChain_cons_cons.mp separated
      rw [coalesceLoop, follows]
      simp only
      rw [holds.sizes block List.mem_cons_self,
        if_neg (show ¬ block.start + block.size = follower.start from apart)]
      exact ih shorter (follows ▸ holds.tail) later

theorem prependFree_agrees (heap : Heap) (blk : Nat) :
    (prependFree heap blk).AgreesOutside heap [blk] := by
  refine ⟨rfl, fun addr outside => ⟨rfl, ?_⟩⟩
  have different : addr ≠ blk := fun same => outside (List.mem_singleton.mpr same)
  exact Function.update_of_ne different _ _

theorem prependFree_spec {heap : Heap} {block : Block} {free : List Block}
    (holds : heap.FreeIs free) (sized : heap.size block.start = block.size)
    (outside : block.start ∉ free.map Block.start) :
    (prependFree heap block.start).FreeIs (block :: free) := by
  have kept : (prependFree heap block.start).ListsFrom heap.freeList free := by
    apply Heap.ListsFrom.congr holds
    intro addr member
    apply (prependFree_agrees heap block.start).2
    intro same
    exact outside (List.mem_singleton.mp same ▸ member)
  exact kept.cons (Function.update_self _ _ _) sized outside

theorem writeFragment_agrees (heap : Heap) (frag leftover curr total : Nat) :
    (writeFragment heap frag leftover curr total).AgreesOutside heap [frag, curr] := by
  refine ⟨rfl, fun addr outside => ?_⟩
  have notFrag : addr ≠ frag := fun same => outside (by simp [same])
  have notCurr : addr ≠ curr := fun same => outside (by simp [same])
  exact ⟨(Function.update_of_ne notCurr _ _).trans (Function.update_of_ne notFrag _ _),
    Function.update_of_ne notFrag _ _⟩

theorem writeFragment_lists {heap : Heap} {free : List Block} {frag leftover curr total : Nat}
    (holds : heap.FreeIs free) (fragOutside : frag ∉ free.map Block.start)
    (currOutside : curr ∉ free.map Block.start) :
    (writeFragment heap frag leftover curr total).FreeIs free := by
  apply Heap.ListsFrom.congr holds
  intro addr member
  apply (writeFragment_agrees heap frag leftover curr total).2
  intro touched
  simp only [List.mem_cons, List.not_mem_nil, or_false] at touched
  rcases touched with isFrag | isCurr
  · exact fragOutside (isFrag ▸ member)
  · exact currOutside (isCurr ▸ member)

/-- A fragment is cut off a block that is in no list, and put in front of the free
list. -/
theorem splitBlock_spec {heap : Heap} {free : List Block} {frag : Block} {curr total : Nat}
    (holds : heap.FreeIs free) (short : free.length < heapPoolSize)
    (bounded : ∀ member ∈ frag :: free, member.stop < uint32Size)
    (fragOutside : frag.start ∉ free.map Block.start) (currOutside : curr ∉ free.map Block.start)
    (different : frag.start ≠ curr) :
    ∃ after,
      coalesceForward
        (prependFree (writeFragment heap frag.start frag.size curr total) frag.start) =
          some after ∧
      after.FreeIs (coalesceFrom frag free) ∧ after.size curr = total ∧
      after.AgreesOutside heap (curr :: (frag :: free).map Block.start) := by
  have written := writeFragment_agrees heap frag.start frag.size curr total
  have kept : (writeFragment heap frag.start frag.size curr total).FreeIs free :=
    writeFragment_lists holds fragOutside currOutside
  have sized : (writeFragment heap frag.start frag.size curr total).size frag.start = frag.size :=
    (Function.update_of_ne different _ _).trans (Function.update_self _ _ _)
  have prepended := prependFree_agrees (writeFragment heap frag.start frag.size curr total)
    frag.start
  obtain ⟨after, returned, lists, frame⟩ :=
    coalesceForward_spec (prependFree_spec kept sized fragOutside) short bounded
  have currElsewhere : curr ∉ (frag :: free).map Block.start := by
    rw [List.map_cons, List.mem_cons, not_or]
    exact ⟨different.symm, currOutside⟩
  refine ⟨after, returned, lists, ?_, ?_⟩
  · rw [(frame.2 curr currElsewhere).1]
    exact Function.update_self _ _ _
  · apply (frame.mono _).trans ((prepended.mono _).trans (written.mono _))
    · exact fun addr member => List.mem_cons_of_mem _ member
    · intro addr member
      simp [List.mem_singleton.mp member]
    · intro addr member
      simp only [List.mem_cons, List.not_mem_nil, or_false] at member
      rcases member with isFrag | isCurr
      · simp [isFrag]
      · simp [isCurr]

theorem findFit_spec {heap : Heap} {total fuel : Nat} {prev curr : Option Nat}
    {free : List Block} (enough : free.length < fuel) (holds : heap.ListsFrom curr free) :
    ((∀ block ∈ free, block.size < total) ∧ findFit heap total fuel prev curr = some none) ∨
      ∃ front chosen back, free = front ++ chosen :: back ∧
        (∀ block ∈ front, block.size < total) ∧ total ≤ chosen.size ∧
        findFit heap total fuel prev curr =
          some (some ((front.map Block.start).getLast?.or prev, chosen.start)) := by
  induction free generalizing fuel prev curr with
  | nil =>
      obtain ⟨limit, rfl⟩ : ∃ limit, fuel = limit + 1 := ⟨fuel - 1, by simp at enough; omega⟩
      have ends : curr = none := holds.links
      refine Or.inl ⟨fun block member => absurd member List.not_mem_nil, ?_⟩
      rw [ends, findFit]
  | cons first rest ih =>
      obtain ⟨limit, rfl⟩ : ∃ limit, fuel = limit + 1 := ⟨fuel - 1, by simp at enough; omega⟩
      have starts : curr = some first.start := holds.links.1
      rw [starts, findFit, holds.sizes first List.mem_cons_self]
      by_cases fits : total ≤ first.size
      · rw [if_pos fits]
        exact Or.inr ⟨[], first, rest, rfl, fun block member => absurd member List.not_mem_nil,
          fits, rfl⟩
      · rw [if_neg fits]
        have shorter : rest.length < limit := by
          rw [List.length_cons] at enough
          omega
        rcases ih shorter holds.tail with
          ⟨small, absent⟩ | ⟨front, chosen, back, split, small, large, found⟩
        · refine Or.inl ⟨?_, absent⟩
          intro block member
          rcases List.mem_cons.mp member with same | behind
          · rw [same]
            omega
          · exact small block behind
        · refine Or.inr ⟨first :: front, chosen, back, ?_, ?_, large, ?_⟩
          · rw [split, List.cons_append]
          · intro block member
            rcases List.mem_cons.mp member with same | behind
            · rw [same]
              omega
            · exact small block behind
          · rw [found, List.map_cons, List.getLast?_cons]
            cases (front.map Block.start).getLast? with
            | none => rfl
            | some last => rfl

theorem removeFromList_spec {heap : Heap} {front back : List Block} {chosen : Block}
    (holds : heap.FreeIs (front ++ chosen :: back)) :
    (removeFromList heap chosen.start (front.map Block.start).getLast?).FreeIs (front ++ back) ∧
      (removeFromList heap chosen.start (front.map Block.start).getLast?).size = heap.size ∧
      (removeFromList heap chosen.start (front.map Block.start).getLast?).AgreesOutside heap
        ((front ++ chosen :: back).map Block.start) := by
  have links := holds.links
  have distinct := holds.distinct
  have kept : ∀ block ∈ front ++ back, heap.size block.start = block.size := by
    intro block member
    exact holds.sizes block (mem_with_middle member)
  rcases List.eq_nil_or_concat front with empty | ⟨before, last, concat⟩
  · subst empty
    rw [List.nil_append, List.map_cons] at links distinct
    have outside := (List.nodup_cons.mp distinct).1
    refine ⟨⟨links.2.update_of_notMem outside none, kept, (List.nodup_cons.mp distinct).2⟩, rfl,
      rfl, fun addr elsewhere => ⟨rfl, ?_⟩⟩
    have different : addr ≠ chosen.start := fun same => elsewhere (by simp [same])
    exact Function.update_of_ne different _ _
  · subst concat
    have spelt : (before ++ [last] ++ chosen :: back).map Block.start =
        before.map Block.start ++ [last.start] ++ chosen.start :: back.map Block.start := by simp
    rw [List.concat_eq_append] at links distinct kept ⊢
    rw [spelt] at links distinct
    have prev : ((before ++ [last]).map Block.start).getLast? = some last.start := by simp
    rw [prev]
    refine ⟨⟨?_, kept, ?_⟩, rfl, rfl, fun addr elsewhere => ⟨rfl, ?_⟩⟩
    · have path := links.bypass distinct
      rw [List.map_append, List.map_append]
      exact path
    · rw [List.map_append, List.map_append]
      exact (nodup_bypass distinct).2.2.2
    · rw [spelt] at elsewhere
      have notChosen : addr ≠ chosen.start := fun same => elsewhere (by simp [same])
      have notLast : addr ≠ last.start := fun same => elsewhere (by simp [same])
      exact (Function.update_of_ne notChosen _ _).trans (Function.update_of_ne notLast _ _)

end MicrokernelRtos
