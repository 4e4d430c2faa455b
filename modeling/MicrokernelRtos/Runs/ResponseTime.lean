/-
How long a task that is ready waits for the processor.

PendSV is taken as soon as it is pending, before the thread goes on and before another
tick, and every tick makes it pending.  A task that stays awake in its bucket has its
turn behind at most as many ticks as there are tasks in front of it, and one more for
each turn of a more urgent task in between.
-/

import MicrokernelRtos.Runs.Turns

namespace MicrokernelRtos

open Transition RoundRobin

structure ResponseState where
  run : TurnState
  ticks : Nat

def PreemptAction.ticks : PreemptAction → Nat
  | .other .sysTick => 1
  | _ => 0

def PreemptAction.isPendSv : PreemptAction → Bool
  | .pendSv => true
  | _ => false

def ResponseState.kernel (s : ResponseState) : Kernel := s.run.preempt.system.kernel

def responseStep (s : ResponseState) (action : PreemptAction) : Option ResponseState :=
  (turnStep s.run action).map fun after => ⟨after, s.ticks + action.ticks⟩

/-- The task stays awake, and a switch that is pending comes next. -/
def SwitchesFirst (t : Addr) (p : Bucket) (s : ResponseState) (action : PreemptAction) : Prop :=
  StaysAwake t p s.run action ∧ (s.kernel.pendSv = true → action.isPendSv = true)

/-- The ticks that have not led to a turn. -/
def ResponseState.unanswered (s : ResponseState) : Nat := if s.kernel.pendSv then 1 else 0

section Runs

variable {s after : ResponseState} {start : PreemptState} {t : Addr} {p : Bucket}

theorem ticks_le {system later : System} {action : Action}
    (taken : step system action = some later) :
    (PreemptAction.other action).ticks ≤ if later.kernel.pendSv then 1 else 0 := by
  cases action with
  | sysTick =>
      obtain ⟨result, tick, rfl⟩ := Option.map_eq_some_iff.mp taken
      obtain ⟨woken, counter, _, isResult⟩ := sysTickHandler_cases tick
      have pending : result.pendSv = true := by rw [isResult]
      simp only [pending, if_true]
      exact Nat.le_refl 1
  | create _ _ _ _ _ => exact Nat.zero_le _
  | delete _ => exact Nat.zero_le _
  | call _ => exact Nat.zero_le _
  | yield => exact Nat.zero_le _
  | getNext => exact Nat.zero_le _
  | dispatch _ => exact Nat.zero_le _

theorem step_getNext_turn {system later : System} (taken : step system .getNext = some later) :
    later.kernel.pendSv = system.kernel.pendSv ∧
      (turnOf .pendSv ⟨later, []⟩).length = 1 ∧ (turnOf .svc ⟨later, []⟩).length = 1 := by
  obtain ⟨⟨sel, next⟩, returned, rfl⟩ := Option.map_eq_some_iff.mp taken
  obtain ⟨state, counter, fields⟩ := select_core system.kernel sel
  have core := (schedulerGetNext_onlyRings returned).core.trans fields
  have current : next.currentTcb = some sel := by rw [core]
  refine ⟨by simp only [core], ?_, ?_⟩
  · simp only [turnOf, current, Option.map_some, Option.toList_some, List.length_singleton]
  · simp only [turnOf, current, Option.map_some, Option.toList_some, List.length_singleton]

structure Responds (t : Addr) (p : Bucket) (budget : Nat) (s : ResponseState) : Prop where
  fair : TurnsFair t p budget s.run
  answered : s.ticks ≤ s.run.turns.length + s.unanswered

theorem Responds.step {budget : Nat} {action : PreemptAction} (holds : Responds t p budget s)
    (allowed : SwitchesFirst t p s action) (taken : responseStep s action = some after) :
    Responds t p budget after := by
  obtain ⟨stays, first⟩ := allowed
  obtain ⟨turned, stepped, rfl⟩ := Option.map_eq_some_iff.mp taken
  refine ⟨holds.fair.step stays stepped, ?_⟩
  obtain ⟨later, preempts, rfl⟩ := Option.map_eq_some_iff.mp stepped
  have answered := holds.answered
  unfold ResponseState.unanswered ResponseState.kernel at answered
  unfold ResponseState.kernel at first
  unfold ResponseState.unanswered ResponseState.kernel
  simp only [List.length_append]
  cases action with
  | other action =>
      rw [if_neg (fun set => Bool.false_ne_true (first set))] at answered
      simp only [preemptStep] at preempts
      split at preempts
      · obtain ⟨system, plain, rfl⟩ := Option.map_eq_some_iff.mp preempts
        have ticks := ticks_le plain
        change s.ticks + (PreemptAction.other action).ticks ≤
          s.run.turns.length + 0 + (if system.kernel.pendSv then 1 else 0)
        omega
      · cases preempts
  | pendSv =>
      simp only [preemptStep] at preempts
      split at preempts
      · rename_i pending
        obtain ⟨system, selects, rfl⟩ := Option.map_eq_some_iff.mp preempts
        have turn := (step_getNext_turn selects).2.1
        rw [if_pos pending] at answered
        simp only [PreemptAction.ticks]
        omega
      · cases preempts
  | svc =>
      rw [if_neg (fun set => Bool.false_ne_true (first set))] at answered
      simp only [preemptStep] at preempts
      split at preempts
      · obtain ⟨system, selects, rfl⟩ := Option.map_eq_some_iff.mp preempts
        have turn := (step_getNext_turn selects).2
        simp only [PreemptAction.ticks]
        omega
      · cases preempts

/-- A task that is awake and has had no turn has seen no more ticks than there were tasks in
front of it and turns of more urgent tasks since, and one more tick at most, which is still
to be answered. -/
theorem turn_within_ticks {front back : List Addr}
    (booted : Reachable PreemptStarted preemptStep PreemptAllowed start)
    (place : start.system.kernel.readyList p = front ++ t :: back)
    (reached : Reachable (fun s => s = ⟨⟨start, []⟩, 0⟩) responseStep (SwitchesFirst t p) s)
    (waits : (p, t) ∉ s.run.turns) :
    s.ticks ≤ front.length + s.run.turns.countP (fun turn => decide (turn.1 < p)) +
      s.unanswered := by
  have invariant : Responds t p front.length s := by
    apply reached.invariant (Responds t p front.length)
    · rintro _ rfl
      exact ⟨turnsFair_start booted place, Nat.zero_le _⟩
    · intro before action after holds allowed taken
      exact holds.step allowed taken
  obtain ⟨⟨_, _, ⟨rings, _, fair⟩, urgent⟩, answered⟩ := invariant
  have own := fair.waits s.run.turns [] (List.append_nil _).symm waits
  have each : s.run.turns.length =
      s.run.turns.countP (fun turn => decide (turn.1 = p)) +
        s.run.turns.countP (fun turn => decide (turn.1 < p)) := by
    rw [List.length_eq_countP_add_countP (fun turn => decide (turn.1 = p))]
    congr 1
    apply List.countP_congr
    intro turn member
    have upTo := urgent turn member
    simp only [decide_eq_true_eq]
    constructor
    · intro other
      exact (Fin.lt_or_eq_of_le upTo).resolve_right other
    · intro below
      exact Fin.ne_of_lt below
  omega

def urgentTurn : List PreemptAction :=
  [.other .sysTick, .pendSv, .other (.create (some 0) 50 256 (some 4) (some 0)),
    .other .sysTick, .pendSv, .other .sysTick]

def switchesFirstCheck (t : Addr) (p : Bucket) (s : ResponseState) (action : PreemptAction) :
    Bool :=
  staysAwakeCheck t p s.run action && (!s.kernel.pendSv || action.isPendSv)

theorem switchesFirst_of_check (s : ResponseState) (action : PreemptAction)
    (checked : switchesFirstCheck t p s action = true) : SwitchesFirst t p s action := by
  obtain ⟨stays, first⟩ := Bool.and_eq_true_iff.mp checked
  refine ⟨staysAwake_of_check s.run action stays, fun pending => ?_⟩
  rw [pending] at first
  exact first

theorem third_turn_within_ticks :
    ∃ s : ResponseState, s.run.turns = [(3, 2), (1, 4)] ∧ s.ticks = 3 ∧
      s.ticks ≤ 1 + s.run.turns.countP (fun turn => decide (turn.1 < 3)) + s.unanswered := by
  obtain ⟨start, booted, found⟩ :=
    @exists_reachable_of_run PreemptState PreemptAction PreemptStarted preemptStep PreemptAllowed
      preemptCheck
      (fun s => decide (s.system.kernel.readyList 3 = [2, 3, 1]) &&
        (run responseStep (switchesFirstCheck 3 3) ⟨⟨s, []⟩, 0⟩ urgentTurn).any
          fun s : ResponseState => decide (s.run.turns = [(3, 2), (1, 4)] ∧ s.ticks = 3))
      preemptAllowed_of_check (threeTasks ++ [.svc]) ⟨startedSystem, []⟩
      ⟨started_startedSystem, rfl⟩ (by decide +kernel)
  obtain ⟨place, ends⟩ := Bool.and_eq_true_iff.mp found
  obtain ⟨s, reached, counted⟩ :=
    @exists_reachable_of_run ResponseState PreemptAction (fun s => s = ⟨⟨start, []⟩, 0⟩)
      responseStep (SwitchesFirst 3 3) (switchesFirstCheck 3 3)
      (fun s => decide (s.run.turns = [(3, 2), (1, 4)] ∧ s.ticks = 3))
      switchesFirst_of_check urgentTurn ⟨⟨start, []⟩, 0⟩ rfl ends
  obtain ⟨turns, ticks⟩ := of_decide_eq_true counted
  have waits : ((3 : Bucket), 3) ∉ s.run.turns := by
    rw [turns]
    decide
  exact ⟨s, turns, ticks,
    @turn_within_ticks s start 3 3 [2] [1] booted (of_decide_eq_true place) reached waits⟩

end Runs

end MicrokernelRtos
