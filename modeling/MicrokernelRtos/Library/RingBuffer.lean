/-
Rings of `depth` slots with a head index and a count.

The list of the items is read off the slots from the head on, modulo the depth.
A slot may be written by any means: what matters is which slots keep their item.
-/

import Mathlib.Data.List.Basic
import Mathlib.Data.Nat.ModEq

namespace MicrokernelRtos.RingBuffer

universe u

variable {Item : Type u} {slot after : Nat → Item} {depth head count : Nat}

def contents (slot : Nat → Item) (depth head count : Nat) : List Item :=
  (List.range count).map fun place => slot ((head + place) % depth)

theorem contents_length : (contents slot depth head count).length = count := by
  rw [contents, List.length_map, List.length_range]

theorem place_ne_free {place : Nat} (inUse : place < count) (room : count < depth) :
    (head + place) % depth ≠ (head + count) % depth := by
  intro same
  have divides := Nat.sub_mod_eq_zero_of_mod_eq same.symm
  have distance : head + count - (head + place) = count - place := by omega
  rw [distance, Nat.mod_eq_of_lt (by omega)] at divides
  omega

theorem contents_push (room : count < depth)
    (kept : ∀ index, index < depth → index ≠ (head + count) % depth → after index = slot index) :
    contents after depth head (count + 1) =
      contents slot depth head count ++ [after ((head + count) % depth)] := by
  unfold contents
  rw [List.range_succ, List.map_append, List.map_singleton]
  congr 1
  refine List.map_congr_left fun place member => ?_
  have inUse := List.mem_range.mp member
  exact kept _ (Nat.mod_lt _ (by omega)) (place_ne_free inUse room)

theorem contents_pop (someItem : 0 < count) :
    contents slot depth head count =
      slot (head % depth) :: contents slot depth ((head + 1) % depth) (count - 1) := by
  obtain ⟨less, rfl⟩ : ∃ less, count = less + 1 := ⟨count - 1, by omega⟩
  unfold contents
  rw [List.range_succ_eq_map, List.map_cons, List.map_map, Nat.add_zero, Nat.add_sub_cancel]
  congr 1
  refine List.map_congr_left fun place _ => ?_
  rw [Function.comp_apply, Nat.mod_add_mod, Nat.add_assoc, Nat.succ_eq_one_add]

theorem free_push : ((head + count) % depth + 1) % depth = (head + (count + 1)) % depth := by
  rw [Nat.mod_add_mod, Nat.add_assoc]

theorem free_pop (someItem : 0 < count) :
    ((head + 1) % depth + (count - 1)) % depth = (head + count) % depth := by
  rw [Nat.mod_add_mod]
  congr 1
  omega

end MicrokernelRtos.RingBuffer
