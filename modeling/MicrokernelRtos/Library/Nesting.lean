/-
Handlers that interrupt each other by level.

The active handlers form a stack, the innermost first.  A handler is entered only where
its level is below that of every active one, so that the levels rise strictly from the
innermost handler outwards, and no more handlers are active than there are levels.
-/

import Mathlib.Data.Finset.Card
import Mathlib.Order.Basic

namespace MicrokernelRtos.Nesting

universe u v

variable {Handler : Type u} {Level : Type v} [Preorder Level]

/-- The handler may be entered on top of whatever is active. -/
def Preempts (level : Handler → Level) (active : List Handler) (handler : Handler) : Prop :=
  ∀ other ∈ active, level handler < level other

instance [DecidableLT Level] (level : Handler → Level) (active : List Handler)
    (handler : Handler) : Decidable (Preempts level active handler) :=
  inferInstanceAs (Decidable (∀ other ∈ active, level handler < level other))

/-- The levels rise from the innermost handler outwards. -/
def Nested (level : Handler → Level) (active : List Handler) : Prop :=
  active.Pairwise fun inner outer => level inner < level outer

variable {level : Handler → Level} {active : List Handler} {handler : Handler}

theorem nested_nil : Nested level [] := .nil

theorem Nested.enter (nested : Nested level active) (preempts : Preempts level active handler) :
    Nested level (handler :: active) :=
  List.pairwise_cons.mpr ⟨preempts, nested⟩

theorem Nested.leave (nested : Nested level (handler :: active)) : Nested level active :=
  (List.pairwise_cons.mp nested).2

/-- No more handlers are active than there are levels. -/
theorem Nested.length_le [DecidableEq Level] (nested : Nested level active)
    (levels : Finset Level) (within : ∀ handler ∈ active, level handler ∈ levels) :
    active.length ≤ levels.card := by
  have distinct : (active.map level).Nodup :=
    List.Pairwise.map level (fun _ _ below => ne_of_lt below) nested
  have inside : (active.map level).toFinset ⊆ levels := by
    intro value member
    obtain ⟨handler, listed, rfl⟩ := List.mem_map.mp (List.mem_toFinset.mp member)
    exact within handler listed
  have bound := Finset.card_le_card inside
  rw [List.toFinset_card_of_nodup distinct, List.length_map] at bound
  exact bound

end MicrokernelRtos.Nesting
