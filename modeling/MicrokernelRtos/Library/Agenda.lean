/-
Requests to be called at a tick, or at every multiple of a period.

What a request asks for is a function of the tick alone.  Whoever serves it keeps
a number of firings and the tick of the next one; if the last firing is not in
the future and the next one is, the firings are those asked for.
-/

import Mathlib.Data.List.Range

namespace MicrokernelRtos.Agenda

/-- Made at tick `armedAt`, for `ticks` ticks later, once or again and again. -/
structure Request where
  armedAt : Nat
  ticks : Nat
  periodic : Bool
  deriving DecidableEq

variable {request : Request} {count now : Nat}

def Request.firings (request : Request) (count : Nat) : List Nat :=
  (List.range count).map fun index => request.armedAt + (index + 1) * request.ticks

def Request.due (request : Request) (count : Nat) : Option Nat :=
  if request.periodic = true ∨ count = 0 then
    some (request.armedAt + (count + 1) * request.ticks)
  else none

def Request.upTo (request : Request) (now : Nat) : List Nat :=
  if request.periodic then request.firings ((now - request.armedAt) / request.ticks)
  else if request.armedAt + request.ticks ≤ now then [request.armedAt + request.ticks]
  else []

theorem Request.firings_succ (request : Request) (count : Nat) :
    request.firings (count + 1) =
      request.firings count ++ [request.armedAt + (count + 1) * request.ticks] := by
  simp only [firings, List.range_succ, List.map_append, List.map_cons, List.map_nil]

/-- Firings that happened in time. -/
structure Request.Served (request : Request) (count now : Nat) : Prop where
  positive : 0 < request.ticks
  past : request.armedAt + count * request.ticks ≤ now
  once : request.periodic = false → count ≤ 1

theorem Request.Served.mono {later : Nat} (served : request.Served count now)
    (passed : now ≤ later) : request.Served count later :=
  ⟨served.positive, served.past.trans passed, served.once⟩

theorem Request.Served.fire (served : request.Served count now)
    (isDue : request.due count = some now) :
    request.Served (count + 1) now ∧ request.firings (count + 1) = request.firings count ++ [now] ∧
      (request.periodic = true → request.due (count + 1) = some (now + request.ticks)) ∧
      (request.periodic = false → request.due (count + 1) = none) := by
  unfold due at isDue
  split at isDue
  · rename_i expected
    have isNow : request.armedAt + (count + 1) * request.ticks = now := Option.some.inj isDue
    refine ⟨⟨served.positive, Nat.le_of_eq isNow, ?_⟩, ?_, ?_, ?_⟩
    · intro oneShot
      rcases expected with periodic | first
      · rw [oneShot] at periodic
        cases periodic
      · rw [first]
    · rw [firings_succ, isNow]
    · intro periodic
      rw [due, if_pos (Or.inl periodic), Nat.add_one_mul, ← Nat.add_assoc, isNow]
    · intro oneShot
      rw [due, if_neg]
      rintro (periodic | none)
      · rw [oneShot] at periodic
        cases periodic
      · cases none
  · cases isDue

theorem Request.Served.firings_eq (served : request.Served count now)
    (ahead : ∀ tick, request.due count = some tick → now < tick) :
    request.firings count = request.upTo now := by
  have past := served.past
  unfold upTo
  cases shape : request.periodic with
  | true =>
      have next := ahead _ (if_pos (Or.inl shape))
      have quotient : (now - request.armedAt) / request.ticks = count := by
        refine Nat.div_eq_of_lt_le ?_ ?_
        · omega
        · omega
      rw [if_pos rfl, quotient]
  | false =>
      rw [if_neg Bool.false_ne_true]
      rcases Nat.le_one_iff_eq_zero_or_eq_one.mp (served.once shape) with rfl | rfl
      · have next := ahead _ (if_pos (Or.inr rfl))
        rw [Nat.zero_add, Nat.one_mul] at next
        rw [if_neg (Nat.not_le.mpr next)]
        rfl
      · rw [Nat.one_mul] at past
        rw [if_pos past, firings_succ, Nat.zero_add, Nat.one_mul]
        rfl

end MicrokernelRtos.Agenda
