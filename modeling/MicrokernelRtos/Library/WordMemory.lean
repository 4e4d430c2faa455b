/-
Memory as words of four bytes, with loads and stores of several words at once.

A place is the address of a word.  The words of one load or store lie one behind
the other from an address upwards, and every place that is read or written is a
multiple of four away from it.  Two stores have no word in common when their byte
ranges are apart.
-/

import Mathlib.Data.Fin.Tuple.Basic
import Mathlib.Data.Nat.Basic
import Mathlib.Logic.Function.Basic

namespace MicrokernelRtos.Words

universe u

variable {Word : Type u} {n : Nat}

def load (memory : Nat → Word) (n addr : Nat) : Fin n → Word :=
  fun index => memory (addr + 4 * index.val)

def Within (addr n place : Nat) : Prop :=
  addr ≤ place ∧ place < addr + 4 * n ∧ (place - addr) % 4 = 0

instance (addr n place : Nat) : Decidable (Within addr n place) :=
  inferInstanceAs (Decidable (_ ∧ _ ∧ _))

theorem Within.index_lt {addr place : Nat} (within : Within addr n place) :
    (place - addr) / 4 < n := by
  unfold Within at within
  omega

def store (memory : Nat → Word) (addr : Nat) (values : Fin n → Word) : Nat → Word :=
  fun place =>
    if within : Within addr n place then values ⟨(place - addr) / 4, within.index_lt⟩
    else memory place

theorem store_outside {memory : Nat → Word} {addr place : Nat} {values : Fin n → Word}
    (outside : place < addr ∨ addr + 4 * n ≤ place) :
    store memory addr values place = memory place := by
  unfold store
  rw [dif_neg]
  intro within
  unfold Within at within
  omega

theorem load_store (memory : Nat → Word) (addr : Nat) (values : Fin n → Word) :
    load (store memory addr values) n addr = values := by
  funext index
  have within : Within addr n (addr + 4 * index.val) := by
    have bound := index.isLt
    unfold Within
    omega
  unfold load store
  rw [dif_pos within]
  congr 1
  apply Fin.ext
  change (addr + 4 * index.val - addr) / 4 = index.val
  omega

/-- The two memories agree from `low` up to `high`. -/
def AgreeOn (memory other : Nat → Word) (low high : Nat) : Prop :=
  ∀ place, low ≤ place → place < high → memory place = other place

theorem AgreeOn.refl (memory : Nat → Word) (low high : Nat) : AgreeOn memory memory low high :=
  fun _ _ _ => rfl

theorem AgreeOn.trans {first middle last : Nat → Word} {low high : Nat}
    (later : AgreeOn last middle low high) (earlier : AgreeOn middle first low high) :
    AgreeOn last first low high :=
  fun place above below => (later place above below).trans (earlier place above below)

theorem AgreeOn.mono {memory other : Nat → Word} {low high inner outer : Nat}
    (agree : AgreeOn memory other low high) (above : low ≤ inner) (below : outer ≤ high) :
    AgreeOn memory other inner outer :=
  fun place inside outside =>
    agree place (Nat.le_trans above inside) (Nat.lt_of_lt_of_le outside below)

theorem store_agrees {memory : Nat → Word} {addr low high : Nat} {values : Fin n → Word}
    (apart : addr + 4 * n ≤ low ∨ high ≤ addr) :
    AgreeOn (store memory addr values) memory low high := by
  intro place above below
  apply store_outside
  omega

theorem load_congr {memory other : Nat → Word} {addr low high : Nat}
    (agree : AgreeOn memory other low high) (above : low ≤ addr) (below : addr + 4 * n ≤ high) :
    load memory n addr = load other n addr := by
  funext index
  have bound := index.isLt
  apply agree
  · omega
  · omega

theorem update_agrees {memory : Nat → Word} {addr low high : Nat} {value : Word}
    (apart : addr < low ∨ high ≤ addr) :
    AgreeOn (Function.update memory addr value) memory low high := by
  intro place above below
  apply Function.update_of_ne
  omega

/-! ### Word by word -/

theorem store_none (memory : Nat → Word) (addr : Nat) (values : Fin 0 → Word) :
    store memory addr values = memory := by
  funext place
  apply store_outside
  omega

theorem load_succ (memory : Nat → Word) (n addr : Nat) :
    load memory (n + 1) addr = Fin.cons (memory addr) (load memory n (addr + 4)) := by
  funext index
  cases index using Fin.cases with
  | zero => rfl
  | succ index =>
      rw [Fin.cons_succ]
      change memory (addr + 4 * (index.val + 1)) = memory (addr + 4 + 4 * index.val)
      congr 1
      omega

theorem store_cons (memory : Nat → Word) (addr : Nat) (first : Word) (rest : Fin n → Word) :
    store memory addr (Fin.cons first rest : Fin (n + 1) → Word) =
      store (Function.update memory addr first) (addr + 4) rest := by
  funext place
  by_cases later : Within (addr + 4) n place
  · have inside : Within addr (n + 1) place := by
      unfold Within at later ⊢
      omega
    unfold store
    rw [dif_pos inside, dif_pos later]
    have position : (⟨(place - addr) / 4, inside.index_lt⟩ : Fin (n + 1)) =
        Fin.succ ⟨(place - (addr + 4)) / 4, later.index_lt⟩ := by
      apply Fin.ext
      change (place - addr) / 4 = (place - (addr + 4)) / 4 + 1
      unfold Within at later
      omega
    rw [position, Fin.cons_succ]
  · by_cases same : place = addr
    · subst same
      have inside : Within place (n + 1) place := by
        unfold Within
        omega
      unfold store
      rw [dif_pos inside, dif_neg later, Function.update_self]
      have position : (⟨(place - place) / 4, inside.index_lt⟩ : Fin (n + 1)) = 0 := by
        apply Fin.ext
        change (place - place) / 4 = 0
        omega
      rw [position, Fin.cons_zero]
    · have outside : ¬ Within addr (n + 1) place := by
        unfold Within at later ⊢
        omega
      unfold store
      rw [dif_neg outside, dif_neg later, Function.update_of_ne same]

def writeAll (memory : Nat → Word) : List (Nat × Word) → Nat → Word
  | [] => memory
  | write :: rest => writeAll (Function.update memory write.1 write.2) rest

theorem writeAll_outside {memory : Nat → Word} {writes : List (Nat × Word)} {place : Nat}
    (outside : ∀ write ∈ writes, write.1 ≠ place) :
    writeAll memory writes place = memory place := by
  induction writes generalizing memory with
  | nil => rfl
  | cons write rest ih =>
      have different : place ≠ write.1 := (outside write List.mem_cons_self).symm
      rw [writeAll, ih fun other member => outside other (List.mem_cons_of_mem _ member)]
      exact Function.update_of_ne different _ _

def excerpt [Zero Word] (memory : Nat → Word) (low high : Nat) : Nat → Word :=
  fun place => if low ≤ place ∧ place < high then memory place else 0

theorem excerpt_congr [Zero Word] {memory other : Nat → Word} {low high : Nat}
    (agree : AgreeOn memory other low high) : excerpt memory low high = excerpt other low high := by
  funext place
  unfold excerpt
  split
  · rename_i inside
    exact agree place inside.1 inside.2
  · rfl

end MicrokernelRtos.Words
