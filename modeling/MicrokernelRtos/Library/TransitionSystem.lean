/-
Transition systems with a partial step function.

A step has no result where an action is not possible.  `allowed` restricts the
actions of a run by the state they are taken in, so that one step function
serves several classes of runs.  An invariant is established once at the start
and once for an arbitrary step.
-/

import Mathlib.Data.Option.Basic

namespace MicrokernelRtos.Transition

universe u v

variable {State : Type u} {Action : Type v}

/-- The states of the runs in which every action is allowed where it is taken. -/
inductive Reachable (start : State → Prop) (step : State → Action → Option State)
    (allowed : State → Action → Prop) : State → Prop where
  | initial {s : State} (begins : start s) : Reachable start step allowed s
  | next {s after : State} {a : Action} (before : Reachable start step allowed s)
      (permitted : allowed s a) (taken : step s a = some after) :
      Reachable start step allowed after

variable {start : State → Prop} {step : State → Action → Option State}
variable {allowed : State → Action → Prop}

/-- The rule for invariants. -/
theorem Reachable.invariant (holds : State → Prop) (base : ∀ s, start s → holds s)
    (keeps : ∀ s a after, holds s → allowed s a → step s a = some after → holds after)
    {s : State} (reached : Reachable start step allowed s) : holds s := by
  induction reached with
  | initial begins => exact base _ begins
  | next _ permitted taken ih => exact keeps _ _ _ ih permitted taken

/-- An invariant of the runs helps to show that their actions are allowed elsewhere. -/
theorem Reachable.mono_of_invariant {weaker : State → Action → Prop} (holds : State → Prop)
    (base : ∀ s, start s → holds s)
    (keeps : ∀ s a after, holds s → allowed s a → step s a = some after → holds after)
    (implies : ∀ s a, holds s → allowed s a → weaker s a) {s : State}
    (reached : Reachable start step allowed s) : Reachable start step weaker s := by
  induction reached with
  | initial begins => exact Reachable.initial begins
  | next before permitted taken ih =>
      have here := before.invariant holds base keeps
      exact ih.next (implies _ _ here permitted) taken

theorem Reachable.mono {weaker : State → Action → Prop}
    (implies : ∀ s a, allowed s a → weaker s a) {s : State}
    (reached : Reachable start step allowed s) : Reachable start step weaker s :=
  reached.mono_of_invariant (fun _ => True) (fun _ _ => trivial) (fun _ _ _ _ _ _ => trivial)
    fun s a _ permitted => implies s a permitted

/-- A step behind a guard is possible where the guard holds, when it returns there. -/
theorem isSome_guarded {guard : Bool} {result : Option State}
    (returns : guard = true → result.isSome = true) :
    (if guard = true then result else none).isSome = guard := by
  cases guard with
  | true => exact returns rfl
  | false => rfl

/-- A run that is spelt out, with a check of every action. -/
def run (step : State → Action → Option State) (check : State → Action → Bool) :
    State → List Action → Option State
  | s, [] => some s
  | s, a :: rest =>
      if check s a then (step s a).bind fun after => run step check after rest else none

theorem Reachable.of_run {check : State → Action → Bool}
    (sound : ∀ s a, check s a = true → allowed s a) {actions : List Action} {s final : State}
    (reached : Reachable start step allowed s)
    (ends : run step check s actions = some final) : Reachable start step allowed final := by
  induction actions generalizing s with
  | nil =>
      cases ends
      exact reached
  | cons a rest ih =>
      unfold run at ends
      split at ends
      · rename_i checked
        obtain ⟨after, taken, onward⟩ := Option.bind_eq_some_iff.mp ends
        exact ih (reached.next (sound s a checked) taken) onward
      · cases ends

theorem exists_reachable_of_run {check : State → Action → Bool} {found : State → Bool}
    (sound : ∀ s a, check s a = true → allowed s a) {actions : List Action} {s : State}
    (begins : start s) (ends : (run step check s actions).any found = true) :
    ∃ final, Reachable start step allowed final ∧ found final = true := by
  cases result : run step check s actions with
  | none =>
      rw [result] at ends
      cases ends
  | some final =>
      rw [result] at ends
      exact ⟨final, (Reachable.initial begins).of_run sound result, ends⟩

end MicrokernelRtos.Transition
