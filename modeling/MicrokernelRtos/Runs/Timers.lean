/-
Runs of the software timers.

A tick raises the counter and enters the loop of `sw_timer_tick_process`, which
takes the timers that are due out of the list one after the other.  Between the
two parts of the body the callback runs, and what it calls are steps of the run
like the calls of the application between the ticks.

The machine remembers what has been asked for each timer and when its callback
has been invoked since.
-/

import MicrokernelRtos.Library.Agenda
import MicrokernelRtos.Library.TransitionSystem
import MicrokernelRtos.SoftTimer

namespace MicrokernelRtos

open Linked Transition Agenda

structure Invocation where
  tick : Nat
  callback : Nat
  arg : Nat
  deriving DecidableEq

/-- What a start has asked for, and the invocations since, the oldest first. -/
structure Arming extends Request where
  callback : Nat
  arg : Nat
  invocations : List Invocation
  deriving DecidableEq

/-- Where the processor is: outside the tick, at the condition of the loop, or in
the callback of the timer that is due. -/
inductive TimerMode where
  | user
  | draining
  | calling (due : TimerAddr)
  deriving DecidableEq

structure TimerMachine where
  timers : Timers
  mode : TimerMode
  /-- The last start of a timer that has not been stopped since. -/
  arming : TimerAddr → Option Arming
  /-- Invocations for a timer that is not armed. -/
  strays : List (TimerAddr × Invocation)

inductive TimerCall where
  | startOnce (t : Option TimerAddr) (delayTicks : Nat) (cb : Option Nat) (arg : Nat)
  | startPeriodic (t : Option TimerAddr) (periodTicks : Nat) (cb : Option Nat) (arg : Nat)
  | stop (t : Option TimerAddr)

inductive TimerAction where
  | call (call : TimerCall)
  | tick
  | expire
  | finish
  | leave

/-- The record of a start that returned `RTOS_OK`. -/
def TimerMachine.started (machine : TimerMachine) (t : Option TimerAddr) (ticks : Nat)
    (periodic : Bool) (cb : Option Nat) (arg : Nat) (returned : Status × Timers) :
    TimerMachine :=
  { machine with
    timers := returned.2
    arming :=
      match returned.1, t, cb with
      | .ok, some t, some cb => Function.update machine.arming t (some
          { armedAt := machine.timers.tickCount, ticks := ticks, periodic := periodic,
            callback := cb, arg := arg, invocations := [] })
      | _, _, _ => machine.arming }

def TimerMachine.apply (machine : TimerMachine) : TimerCall → Option TimerMachine
  | .startOnce t delayTicks cb arg =>
      (swTimerStartOnce machine.timers t delayTicks cb arg).map
        (machine.started t delayTicks false cb arg)
  | .startPeriodic t periodTicks cb arg =>
      (swTimerStartPeriodic machine.timers t periodTicks cb arg).map
        (machine.started t periodTicks true cb arg)
  | .stop t =>
      (swTimerStop machine.timers t).map fun stopped =>
        { machine with
          timers := stopped
          arming :=
            match t with
            | none => machine.arming
            | some t => Function.update machine.arming t none }

def TimerMachine.invoke (machine : TimerMachine) (due : TimerAddr) : TimerMachine :=
  match machine.timers.callback due with
  | none => machine
  | some cb =>
      let invocation : Invocation :=
        { tick := machine.timers.tickCount, callback := cb, arg := machine.timers.callbackArg due }
      match machine.arming due with
      | none => { machine with strays := machine.strays ++ [(due, invocation)] }
      | some armed =>
          { machine with
            arming := Function.update machine.arming due
              (some { armed with invocations := armed.invocations ++ [invocation] }) }

def timerStep (machine : TimerMachine) : TimerAction → Option TimerMachine
  | .call call =>
      match machine.mode with
      | .draining => none
      | _ => machine.apply call
  | .tick =>
      match machine.mode with
      | .user => some
          { machine with
            timers := { machine.timers with
              tickCount := (machine.timers.tickCount + 1) % uint32Size }
            mode := .draining }
      | _ => none
  | .expire =>
      match machine.mode with
      | .draining =>
          (headDue machine.timers).map fun due =>
            { machine with
              timers := unlinkDue machine.timers due, mode := .calling due }.invoke due
      | _ => none
  | .finish =>
      match machine.mode with
      | .calling due =>
          (afterCallback machine.timers due).map fun timers =>
            { machine with timers := timers, mode := .draining }
      | _ => none
  | .leave =>
      match machine.mode with
      | .draining =>
          if headDue machine.timers = none then some { machine with mode := .user } else none
      | _ => none

/-- After `sw_timer_init`.  The storage of the timers holds anything. -/
structure TimersInitialised (machine : TimerMachine) : Prop where
  list : ∃ timers, machine.timers = swTimerInit timers
  mode : machine.mode = .user
  arming : machine.arming = fun _ => none
  strays : machine.strays = []

def initialTimers : TimerMachine where
  timers := swTimerInit
    { expiryTick := fun _ => 0, periodTicks := fun _ => 0, callback := fun _ => none,
      callbackArg := fun _ => 0, periodic := fun _ => false, active := fun _ => false,
      next := fun _ => none, timerList := none, tickCount := 0, insertions := 0,
      inserted := fun _ => 0 }
  mode := .user
  arming := fun _ => none
  strays := []

theorem timersInitialised_initialTimers : TimersInitialised initialTimers :=
  ⟨⟨_, rfl⟩, rfl, rfl, rfl⟩

/-! ### What holds in every state -/

variable {machine after : TimerMachine} {order : List TimerAddr} {t : TimerAddr}

def Arming.due (armed : Arming) : Option Nat := armed.toRequest.due armed.invocations.length

structure Arming.OnSchedule (armed : Arming) (now : Nat) : Prop where
  served : armed.toRequest.Served armed.invocations.length now
  invocations : armed.invocations = (armed.toRequest.firings armed.invocations.length).map
    fun tick => { tick := tick, callback := armed.callback, arg := armed.arg }

structure Timers.Carries (timers : Timers) (t : TimerAddr) (armed : Arming) : Prop where
  periodic : timers.periodic t = armed.periodic
  period : armed.periodic = true → timers.periodTicks t = armed.ticks
  callback : timers.callback t = some armed.callback
  arg : timers.callbackArg t = armed.arg

theorem Timers.Carries.same {before after : Timers} {armed : Arming}
    (carries : before.Carries t armed) (same : SameTimer before after t) :
    after.Carries t armed :=
  ⟨same.periodic.trans carries.periodic,
    fun periodic => same.periodTicks.trans (carries.period periodic),
    same.callback.trans carries.callback, same.callbackArg.trans carries.arg⟩

def TimerMachine.horizon (machine : TimerMachine) : Nat :=
  match machine.mode with
  | .user => machine.timers.tickCount + 1
  | _ => machine.timers.tickCount

structure TimerMachine.Unlisted (machine : TimerMachine) (t : TimerAddr) (armed : Arming) :
    Prop where
  resting : machine.mode ≠ .calling t → armed.due = none
  called : machine.mode = .calling t → machine.timers.active t = true ∧
    machine.timers.Carries t armed ∧
    (armed.periodic = true → armed.due = some (machine.timers.tickCount + armed.ticks)) ∧
    (armed.periodic = false → armed.due = none)

theorem TimerMachine.Unlisted.same {after : TimerMachine} {armed : Arming}
    (unlisted : machine.Unlisted t armed) (kept : SameTimer machine.timers after.timers t)
    (ticks : after.timers.tickCount = machine.timers.tickCount)
    (modes : after.mode = .calling t ↔ machine.mode = .calling t) : after.Unlisted t armed := by
  refine ⟨fun elsewhere => unlisted.resting (mt modes.mpr elsewhere), fun called => ?_⟩
  obtain ⟨active, carries, periodic, oneShot⟩ := unlisted.called (modes.mp called)
  refine ⟨kept.active.trans active, carries.same kept, ?_, oneShot⟩
  rw [ticks]
  exact periodic

structure TimerLaw (machine : TimerMachine) (order : List TimerAddr) : Prop where
  ordered : machine.timers.Ordered order
  ahead : ∀ t ∈ order, machine.horizon ≤ machine.timers.expiryTick t
  listed : ∀ t ∈ order, ∃ armed, machine.arming t = some armed ∧
    machine.timers.Carries t armed ∧ armed.due = some (machine.timers.expiryTick t)
  unlisted : ∀ t armed, t ∉ order → machine.arming t = some armed → machine.Unlisted t armed
  onSchedule : ∀ t armed, machine.arming t = some armed →
    armed.OnSchedule machine.timers.tickCount
  noStrays : machine.strays = []

theorem TimerLaw.listed_of_due {armed : Arming} {tick : Nat} (law : TimerLaw machine order)
    (isArmed : machine.arming t = some armed) (isDue : armed.due = some tick)
    (elsewhere : machine.mode ≠ .calling t) :
    t ∈ order ∧ machine.timers.Carries t armed ∧ machine.timers.expiryTick t = tick := by
  by_cases member : t ∈ order
  · obtain ⟨other, isOther, carries, expiry⟩ := law.listed t member
    cases isArmed.symm.trans isOther
    exact ⟨member, carries, Option.some.inj (expiry.symm.trans isDue)⟩
  · have resting := (law.unlisted t armed member isArmed).resting elsewhere
    cases resting.symm.trans isDue

theorem TimersInitialised.law (begins : TimersInitialised machine) : TimerLaw machine [] := by
  obtain ⟨timers, isInit⟩ := begins.list
  have empty : machine.timers.timerList = none := by
    rw [isInit]
    rfl
  refine ⟨⟨empty, List.Pairwise.nil, by simp, by simp⟩, by simp, by simp, ?_, ?_, begins.strays⟩
  · intro t armed _ isArmed
    rw [begins.arming] at isArmed
    cases isArmed
  · intro t armed isArmed
    rw [begins.arming] at isArmed
    cases isArmed

theorem Arming.OnSchedule.mono {armed : Arming} {now later : Nat} (fits : armed.OnSchedule now)
    (passed : now ≤ later) : armed.OnSchedule later :=
  ⟨fits.served.mono passed, fits.invocations⟩

def Arming.invoked (armed : Arming) (now : Nat) : Arming :=
  { armed with
    invocations := armed.invocations ++
      [{ tick := now, callback := armed.callback, arg := armed.arg }] }

theorem Arming.invoked_length (armed : Arming) (now : Nat) :
    (armed.invoked now).invocations.length = armed.invocations.length + 1 := by
  simp [Arming.invoked]

theorem Arming.OnSchedule.fire {armed : Arming} {now : Nat} (fits : armed.OnSchedule now)
    (isDue : armed.due = some now) :
    (armed.invoked now).OnSchedule now ∧
      (armed.periodic = true → (armed.invoked now).due = some (now + armed.ticks)) ∧
      (armed.periodic = false → (armed.invoked now).due = none) := by
  obtain ⟨served, firings, periodic, oneShot⟩ := fits.served.fire isDue
  refine ⟨⟨?_, ?_⟩, ?_, ?_⟩
  · rw [armed.invoked_length]
    exact served
  · rw [armed.invoked_length]
    change armed.invocations ++ [_] = (armed.toRequest.firings _).map _
    rw [firings, List.map_append]
    exact congrArg (fun earlier => earlier ++ _) fits.invocations
  · unfold Arming.due
    rw [armed.invoked_length]
    exact periodic
  · unfold Arming.due
    rw [armed.invoked_length]
    exact oneShot

/-! ### The tick -/

theorem tick_law (law : TimerLaw machine order) (isUser : machine.mode = .user)
    (fits : machine.timers.tickCount + 1 < uint32Size) :
    TimerLaw
      { machine with
        timers := { machine.timers with
          tickCount := (machine.timers.tickCount + 1) % uint32Size }
        mode := .draining } order := by
  rw [Nat.mod_eq_of_lt fits]
  have ordered := law.ordered
  refine ⟨⟨ordered.path, ordered.sorted, ordered.stamped, ordered.active⟩, ?_, ?_, ?_, ?_,
    law.noStrays⟩
  · intro t inside
    have ahead := law.ahead t inside
    simp only [TimerMachine.horizon, isUser] at ahead
    exact ahead
  · intro t inside
    obtain ⟨armed, isArmed, carries, expiry⟩ := law.listed t inside
    exact ⟨armed, isArmed, carries.same ⟨rfl, rfl, rfl, rfl, rfl, rfl⟩, expiry⟩
  · intro t armed outside isArmed
    have resting := (law.unlisted t armed outside isArmed).resting (by simp [isUser])
    refine ⟨fun _ => resting, ?_⟩
    intro called
    cases called
  · intro t armed isArmed
    exact (law.onSchedule t armed isArmed).mono (Nat.le_succ _)

theorem headDue_some {timers : Timers} {due : TimerAddr} (isDue : headDue timers = some due) :
    timers.timerList = some due ∧ timers.active due = true ∧
      timers.expiryTick due ≤ timers.tickCount := by
  obtain ⟨isHead, guards⟩ := Option.filter_eq_some_iff.mp isDue
  rw [Bool.and_eq_true, decide_eq_true_eq] at guards
  exact ⟨isHead, guards⟩

theorem TimerLaw.head_due {due : TimerAddr} (law : TimerLaw machine order)
    (draining : machine.mode = .draining) (isDue : headDue machine.timers = some due) :
    ∃ rest armed, order = due :: rest ∧ machine.arming due = some armed ∧
      machine.timers.Carries due armed ∧ armed.due = some machine.timers.tickCount := by
  obtain ⟨isHead, _, expired⟩ := headDue_some isDue
  have path := law.ordered.path
  rw [isHead] at path
  cases order with
  | nil => cases path
  | cons first rest =>
      cases path.1
      obtain ⟨armed, isArmed, carries, expiry⟩ := law.listed due List.mem_cons_self
      have ahead := law.ahead due List.mem_cons_self
      simp only [TimerMachine.horizon, draining] at ahead
      rw [Nat.le_antisymm expired ahead] at expiry
      exact ⟨rest, armed, rfl, isArmed, carries, expiry⟩

def TimerMachine.expired (machine : TimerMachine) (due : TimerAddr) (armed : Arming) :
    TimerMachine :=
  { machine with
    timers := unlinkDue machine.timers due
    mode := .calling due
    arming := Function.update machine.arming due
      (some (armed.invoked machine.timers.tickCount)) }

theorem expired_law {due : TimerAddr} {rest : List TimerAddr} {armed : Arming}
    (law : TimerLaw machine (due :: rest)) (draining : machine.mode = .draining)
    (isArmed : machine.arming due = some armed) (carries : machine.timers.Carries due armed)
    (isNow : armed.due = some machine.timers.tickCount) :
    TimerLaw (machine.expired due armed) rest := by
  obtain ⟨onSchedule, periodic, oneShot⟩ := (law.onSchedule due armed isArmed).fire isNow
  have notRest : due ∉ rest := (List.nodup_cons.mp law.ordered.path.nodup).1
  have recorded : (machine.expired due armed).arming due =
      some (armed.invoked machine.timers.tickCount) := Function.update_self _ _ _
  have others : ∀ t, t ≠ due → (machine.expired due armed).arming t = machine.arming t :=
    fun t different => Function.update_of_ne different _ _
  refine ⟨⟨?_, ?_, ?_, ?_⟩, ?_, ?_, ?_, ?_, law.noStrays⟩
  · exact law.ordered.path.2.update_of_notMem notRest none
  · exact (List.pairwise_cons.mp law.ordered.sorted).2
  · exact fun t inside => law.ordered.stamped t (List.mem_cons_of_mem due inside)
  · exact fun t inside => law.ordered.active t (List.mem_cons_of_mem due inside)
  · intro t inside
    have ahead := law.ahead t (List.mem_cons_of_mem due inside)
    simp only [TimerMachine.horizon, draining] at ahead
    exact ahead
  · intro t inside
    have different : t ≠ due := by
      rintro rfl
      exact notRest inside
    obtain ⟨other, isOther, otherCarries, otherDue⟩ :=
      law.listed t (List.mem_cons_of_mem due inside)
    exact ⟨other, (others t different).trans isOther,
      otherCarries.same ⟨rfl, rfl, rfl, rfl, rfl, rfl⟩, otherDue⟩
  · intro t other outside isOther
    by_cases same : t = due
    · subst t
      cases recorded.symm.trans isOther
      refine ⟨fun elsewhere => absurd rfl elsewhere, fun _ => ?_⟩
      exact ⟨law.ordered.active due List.mem_cons_self,
        ⟨carries.periodic, carries.period, carries.callback, carries.arg⟩, periodic, oneShot⟩
    · rw [others t same] at isOther
      have notListed : t ∉ due :: rest := by simp [same, outside]
      have resting := (law.unlisted t other notListed isOther).resting (by simp [draining])
      refine ⟨fun _ => resting, fun called => ?_⟩
      cases called
      exact absurd rfl same
  · intro t other isOther
    by_cases same : t = due
    · subst t
      cases recorded.symm.trans isOther
      exact onSchedule
    · rw [others t same] at isOther
      exact law.onSchedule t other isOther

theorem expire_law {due : TimerAddr} (law : TimerLaw machine order)
    (draining : machine.mode = .draining) (isDue : headDue machine.timers = some due) :
    ∃ rest armed, order = due :: rest ∧ machine.arming due = some armed ∧
      armed.due = some machine.timers.tickCount ∧
      timerStep machine .expire = some (machine.expired due armed) ∧
      TimerLaw (machine.expired due armed) rest := by
  obtain ⟨rest, armed, rfl, isArmed, carries, isNow⟩ := law.head_due draining isDue
  refine ⟨rest, armed, rfl, isArmed, isNow, ?_, expired_law law draining isArmed carries isNow⟩
  simp only [timerStep, draining, isDue, Option.map_some, TimerMachine.invoke, unlinkDue,
    carries.callback, isArmed, carries.arg]
  rfl

theorem leave_law (law : TimerLaw machine order) (draining : machine.mode = .draining)
    (noneDue : headDue machine.timers = none) :
    TimerLaw { machine with mode := .user } order := by
  refine ⟨law.ordered, ?_, law.listed, ?_, law.onSchedule, law.noStrays⟩
  · cases order with
    | nil => exact fun t inside => absurd inside List.not_mem_nil
    | cons first rest =>
        have isHead : machine.timers.timerList = some first := law.ordered.path.1
        have isActive := law.ordered.active first List.mem_cons_self
        have later : machine.timers.tickCount < machine.timers.expiryTick first := by
          rw [headDue, isHead, Option.filter_some, isActive] at noneDue
          simpa using noneDue
        intro t inside
        change machine.timers.tickCount + 1 ≤ machine.timers.expiryTick t
        rcases List.mem_cons.mp inside with rfl | behind
        · exact later
        · exact Nat.lt_of_lt_of_le later
            ((List.pairwise_cons.mp law.ordered.sorted).1 t behind).le
  · intro t armed outside isArmed
    have resting := (law.unlisted t armed outside isArmed).resting (by simp [draining])
    exact ⟨fun _ => resting, fun called => by cases called⟩

/-! ### Insertions -/

/-- A timer that is not in the list is filled in for a request and inserted; the
callback that runs, if any, goes on or was that of the timer. -/
theorem TimerLaw.insert {filled : Timers} {mode : TimerMode} {armed : Arming}
    (law : TimerLaw machine order) (only : OnlyTimer machine.timers filled t) (new : t ∉ order)
    (modes : mode = machine.mode ∨ machine.mode = .calling t ∧ mode = .draining)
    (isActive : filled.active t = true) (carries : filled.Carries t armed)
    (isDue : armed.due = some (filled.expiryTick t))
    (ahead : machine.horizon ≤ filled.expiryTick t)
    (onSchedule : armed.OnSchedule machine.timers.tickCount) :
    ∃ timers added, insertSorted filled t = some timers ∧ TimerLaw
      { machine with
        timers := timers
        mode := mode
        arming := Function.update machine.arming t (some armed) } added := by
  obtain ⟨next, head, added, returned, ordered, member⟩ := law.ordered.insert only new isActive
  refine ⟨_, added, returned, ordered, ?_, ?_, ?_, ?_, law.noStrays⟩
  · intro u inside
    have horizon : TimerMachine.horizon
        { machine with
          timers := filled.relinked next head t
          mode := mode
          arming := Function.update machine.arming t (some armed) } = machine.horizon := by
      unfold TimerMachine.horizon
      rcases modes with rfl | ⟨calling, rfl⟩
      · simp only [Timers.relinked, only.tickCount]
      · simp only [Timers.relinked, only.tickCount, calling]
    rw [horizon]
    change _ ≤ filled.expiryTick u
    by_cases same : u = t
    · rw [same]
      exact ahead
    · rw [(only.fields u same).expiryTick]
      exact law.ahead u (((member u).mp inside).resolve_left same)
  · intro u inside
    dsimp only
    by_cases same : u = t
    · subst u
      rw [Function.update_self]
      exact ⟨armed, rfl, carries.same ⟨rfl, rfl, rfl, rfl, rfl, rfl⟩, isDue⟩
    · rw [Function.update_of_ne same]
      obtain ⟨other, isOther, otherCarries, expiry⟩ :=
        law.listed u (((member u).mp inside).resolve_left same)
      have kept := only.fields u same
      refine ⟨other, isOther, otherCarries.same ⟨kept.expiryTick, kept.periodTicks, kept.callback,
        kept.callbackArg, kept.periodic, kept.active⟩, ?_⟩
      rw [expiry, ← kept.expiryTick]
      rfl
  · intro u other outside isOther
    rw [member, not_or] at outside
    have kept := only.fields u outside.1
    dsimp only at isOther
    rw [Function.update_of_ne outside.1] at isOther
    refine (law.unlisted u other outside.2 isOther).same ⟨kept.expiryTick, kept.periodTicks,
      kept.callback, kept.callbackArg, kept.periodic, kept.active⟩ only.tickCount ?_
    rcases modes with rfl | ⟨calling, rfl⟩
    · exact Iff.rfl
    · rw [calling]
      refine ⟨fun called => ?_, fun called => ?_⟩
      · cases called
      · cases called
        exact absurd rfl outside.1
  · intro u other isOther
    change other.OnSchedule filled.tickCount
    rw [only.tickCount]
    dsimp only at isOther
    by_cases same : u = t
    · subst u
      rw [Function.update_self] at isOther
      cases isOther
      exact onSchedule
    · rw [Function.update_of_ne same] at isOther
      exact law.onSchedule u other isOther

theorem start_law {ticks cb arg : Nat} {periodic : Bool} (law : TimerLaw machine order)
    (new : t ∉ order) (positive : ticks ≠ 0)
    (fits : machine.timers.tickCount + ticks < uint32Size) :
    ∃ timers added,
      swTimerStart machine.timers (some t) ticks periodic (some cb) arg = some (.ok, timers) ∧
      TimerLaw (machine.started (some t) ticks periodic (some cb) arg (.ok, timers)) added := by
  have only := armTimer_only machine.timers t ticks periodic cb arg
  have expiry : (armTimer machine.timers t ticks periodic cb arg).expiryTick t =
      machine.timers.tickCount + ticks := by
    simp [armTimer, Nat.mod_eq_of_lt fits]
  obtain ⟨timers, added, returned, keeps⟩ := @TimerLaw.insert machine order t
    (armTimer machine.timers t ticks periodic cb arg) machine.mode
    { armedAt := machine.timers.tickCount, ticks := ticks, periodic := periodic,
      callback := cb, arg := arg, invocations := [] } law only new (Or.inl rfl)
    (by simp [armTimer])
    ⟨by simp [armTimer], fun isPeriodic => by simp [armTimer, show periodic = true from isPeriodic],
      by simp [armTimer], by simp [armTimer]⟩
    (by rw [expiry]; simp [Arming.due, Request.due])
    (by
      rw [expiry]
      unfold TimerMachine.horizon
      split <;> omega)
    ⟨⟨Nat.pos_of_ne_zero positive, by simp, by simp⟩, rfl⟩
  refine ⟨timers, added, ?_, keeps⟩
  rw [swTimerStart, if_neg positive, returned]
  rfl

/-! ### The other steps -/

theorem stop_law (law : TimerLaw machine order) (t : TimerAddr) :
    ∃ timers, swTimerStop machine.timers (some t) = some timers ∧ TimerLaw
        { machine with
          timers := timers
          arming := Function.update machine.arming t none } (order.erase t) ∧
      ∀ u, u ≠ t → SameTimer machine.timers timers u := by
  obtain ⟨next, head, returned, path⟩ := law.ordered.stop t
  have distinct := law.ordered.path.nodup
  have active : ∀ u, u ≠ t →
      (if t ∈ order then Function.update machine.timers.active t false
        else machine.timers.active) u = machine.timers.active u := by
    intro u different
    split
    · exact Function.update_of_ne different _ _
    · rfl
  refine ⟨_, returned, ⟨⟨path, ?_, ?_, ?_⟩, ?_, ?_, ?_, ?_, law.noStrays⟩, ?_⟩
  · exact law.ordered.sorted.sublist List.erase_sublist
  · exact fun u inside => law.ordered.stamped u (List.mem_of_mem_erase inside)
  · intro u inside
    rw [distinct.mem_erase_iff] at inside
    exact (active u inside.1).trans (law.ordered.active u inside.2)
  · exact fun u inside => law.ahead u (List.mem_of_mem_erase inside)
  · intro u inside
    rw [distinct.mem_erase_iff] at inside
    obtain ⟨armed, isArmed, carries, expiry⟩ := law.listed u inside.2
    refine ⟨armed, ?_, carries.same ⟨rfl, rfl, rfl, rfl, rfl, active u inside.1⟩, expiry⟩
    exact (Function.update_of_ne inside.1 _ _).trans isArmed
  · intro u armed outside isArmed
    dsimp only at isArmed
    have different : u ≠ t := by
      rintro rfl
      rw [Function.update_self] at isArmed
      cases isArmed
    rw [Function.update_of_ne different] at isArmed
    have notListed : u ∉ order := fun inside =>
      outside (distinct.mem_erase_iff.mpr ⟨different, inside⟩)
    exact (law.unlisted u armed notListed isArmed).same
      ⟨rfl, rfl, rfl, rfl, rfl, active u different⟩ rfl Iff.rfl
  · intro u armed isArmed
    dsimp only at isArmed
    by_cases same : u = t
    · subst u
      rw [Function.update_self] at isArmed
      cases isArmed
    · rw [Function.update_of_ne same] at isArmed
      exact law.onSchedule u armed isArmed
  · exact fun u different => ⟨rfl, rfl, rfl, rfl, rfl, active u different⟩

theorem rearm_law {due : TimerAddr} {armed : Arming} (law : TimerLaw machine order)
    (calling : machine.mode = .calling due) (outside : due ∉ order)
    (shape : machine.timers.periodic due = true) (isArmed : machine.arming due = some armed)
    (fits : machine.timers.tickCount + machine.timers.periodTicks due < uint32Size) :
    ∃ timers added, afterCallback machine.timers due = some timers ∧
      TimerLaw { machine with timers := timers, mode := .draining } added := by
  obtain ⟨isActive, carries, periodic, _⟩ :=
    (law.unlisted due armed outside isArmed).called calling
  have isPeriodic : armed.periodic = true := carries.periodic.symm.trans shape
  have period := carries.period isPeriodic
  have only : OnlyTimer machine.timers
      { machine.timers with
        expiryTick := Function.update machine.timers.expiryTick due
          ((machine.timers.tickCount + machine.timers.periodTicks due) % uint32Size)
        next := Function.update machine.timers.next due none } due := by
    refine ⟨fun u different => ?_, fun u different => ?_, rfl, rfl, rfl, rfl⟩
    · exact ⟨Function.update_of_ne different _ _, rfl, rfl, rfl, rfl, rfl⟩
    · exact Function.update_of_ne different _ _
  have expiry : Function.update machine.timers.expiryTick due
      ((machine.timers.tickCount + machine.timers.periodTicks due) % uint32Size) due =
      machine.timers.tickCount + armed.ticks := by
    rw [Function.update_self, Nat.mod_eq_of_lt fits, period]
  have same : Function.update machine.arming due (some armed) = machine.arming := by
    rw [← isArmed, Function.update_eq_self]
  obtain ⟨timers, added, returned, keeps⟩ := law.insert only outside
    (Or.inr ⟨calling, rfl⟩) isActive ⟨carries.periodic, carries.period, carries.callback,
      carries.arg⟩ ((periodic isPeriodic).trans (congrArg some expiry.symm))
    (by
      change _ ≤ Function.update machine.timers.expiryTick due _ due
      rw [expiry]
      simp [TimerMachine.horizon, calling])
    (law.onSchedule due armed isArmed)
  rw [same] at keeps
  refine ⟨timers, added, ?_, keeps⟩
  rw [afterCallback, if_pos shape]
  exact returned

theorem retire_law {due : TimerAddr} (law : TimerLaw machine order)
    (calling : machine.mode = .calling due) (outside : due ∉ order)
    (shape : machine.timers.periodic due = false) :
    ∃ timers, afterCallback machine.timers due = some timers ∧
      TimerLaw { machine with timers := timers, mode := .draining } order := by
  have active : ∀ u ∈ order, Function.update machine.timers.active due false u =
      machine.timers.active u := by
    intro u inside
    refine Function.update_of_ne ?_ _ _
    rintro rfl
    exact outside inside
  have ordered := law.ordered
  refine ⟨{ machine.timers with active := Function.update machine.timers.active due false },
    by rw [afterCallback, if_neg (by simp [shape])], ?_⟩
  refine ⟨⟨ordered.path, ordered.sorted, ordered.stamped, ?_⟩, ?_, ?_, ?_, law.onSchedule,
    law.noStrays⟩
  · exact fun u inside => (active u inside).trans (ordered.active u inside)
  · intro u inside
    have ahead := law.ahead u inside
    simp only [TimerMachine.horizon, calling] at ahead
    exact ahead
  · intro u inside
    obtain ⟨armed, isArmed, carries, expiry⟩ := law.listed u inside
    exact ⟨armed, isArmed, carries.same ⟨rfl, rfl, rfl, rfl, rfl, active u inside⟩, expiry⟩
  · intro u armed notListed isArmed
    have unlisted := law.unlisted u armed notListed isArmed
    refine ⟨fun _ => ?_, fun called => by cases called⟩
    by_cases same : u = due
    · subst u
      obtain ⟨_, carries, _, oneShot⟩ := unlisted.called calling
      exact oneShot (carries.periodic.symm.trans shape)
    · refine unlisted.resting fun called => ?_
      rw [calling] at called
      cases called
      exact same rfl

/-- The callback returns and has neither left its timer in the list nor stopped it
while it is periodic. -/
theorem finish_law {due : TimerAddr} (law : TimerLaw machine order)
    (calling : machine.mode = .calling due) (outside : due ∉ order)
    (kept : machine.timers.periodic due = true → machine.arming due ≠ none)
    (fits : machine.timers.periodic due = true →
      machine.timers.tickCount + machine.timers.periodTicks due < uint32Size) :
    ∃ timers added, afterCallback machine.timers due = some timers ∧
      TimerLaw { machine with timers := timers, mode := .draining } added := by
  cases shape : machine.timers.periodic due with
  | true =>
      obtain ⟨armed, isArmed⟩ := Option.ne_none_iff_exists'.mp (kept shape)
      exact rearm_law law calling outside shape isArmed (fits shape)
  | false =>
      obtain ⟨timers, returned, keeps⟩ := retire_law law calling outside shape
      exact ⟨timers, order, returned, keeps⟩

/-! ### Runs -/

/-- A start that is accepted is for a timer that is not in the list, and its
expiry does not wrap. -/
def StartFits (timers : Timers) (t : Option TimerAddr) (ticks : Nat) (cb : Option Nat) : Prop :=
  ∀ u ∈ t, cb ≠ none → ticks ≠ 0 →
    ¬ Reaches timers.next timers.timerList u ∧ timers.tickCount + ticks < uint32Size

def CallFits (timers : Timers) : TimerCall → Prop
  | .startOnce t delayTicks cb _ => StartFits timers t delayTicks cb
  | .startPeriodic t periodTicks cb _ => StartFits timers t periodTicks cb
  | .stop _ => True

/-- Only timers that are not in the list are started, and no tick and no expiry
reaches 2^32. -/
def StaysBelow (machine : TimerMachine) : TimerAction → Prop
  | .call call => CallFits machine.timers call
  | .tick => machine.timers.tickCount + 1 < uint32Size
  | .finish => ∀ due, machine.mode = .calling due → machine.timers.periodic due = true →
      machine.timers.tickCount + machine.timers.periodTicks due < uint32Size
  | _ => True

/-- A callback that returns has not left its own timer in the list, and has not
stopped it while it is periodic. -/
def LeavesOwnTimer (machine : TimerMachine) : TimerAction → Prop
  | .finish => ∀ due, machine.mode = .calling due →
      ¬ Reaches machine.timers.next machine.timers.timerList due ∧
        (machine.timers.periodic due = true → machine.arming due ≠ none)
  | _ => True

theorem swTimerStart_law {ticks arg : Nat} {periodic : Bool} {target : Option TimerAddr}
    {cb : Option Nat} (law : TimerLaw machine order)
    (fits : StartFits machine.timers target ticks cb) :
    ∃ returned added, swTimerStart machine.timers target ticks periodic cb arg = some returned ∧
      TimerLaw (machine.started target ticks periodic cb arg returned) added := by
  have refused : TimerLaw (machine.started target ticks periodic cb arg
      (.errParam, machine.timers)) order := law
  cases target with
  | none => exact ⟨_, order, rfl, refused⟩
  | some t =>
      cases cb with
      | none => exact ⟨_, order, rfl, refused⟩
      | some cb =>
          by_cases zero : ticks = 0
          · exact ⟨_, order, by rw [swTimerStart, if_pos zero], refused⟩
          · obtain ⟨notListed, below⟩ := fits t rfl (by simp) zero
            rw [law.ordered.path.reaches_iff] at notListed
            obtain ⟨timers, added, returned, keeps⟩ :=
              @start_law machine order t ticks cb arg periodic law notListed zero below
            exact ⟨_, added, returned, keeps⟩

theorem apply_law {call : TimerCall} (law : TimerLaw machine order)
    (fits : CallFits machine.timers call) :
    ∃ after added, machine.apply call = some after ∧ TimerLaw after added := by
  cases call with
  | startOnce t delayTicks cb arg =>
      obtain ⟨returned, added, start, keeps⟩ :=
        @swTimerStart_law machine order delayTicks arg false t cb law fits
      exact ⟨_, added, by rw [TimerMachine.apply, swTimerStartOnce, start]; rfl, keeps⟩
  | startPeriodic t periodTicks cb arg =>
      obtain ⟨returned, added, start, keeps⟩ :=
        @swTimerStart_law machine order periodTicks arg true t cb law fits
      exact ⟨_, added, by rw [TimerMachine.apply, swTimerStartPeriodic, start]; rfl, keeps⟩
  | stop t =>
      cases t with
      | none => exact ⟨_, order, rfl, law⟩
      | some t =>
          obtain ⟨timers, returned, keeps, _⟩ := stop_law law t
          exact ⟨_, order.erase t, by rw [TimerMachine.apply, returned]; rfl, keeps⟩

def TimerMachine.Enabled (machine : TimerMachine) : TimerAction → Prop
  | .call _ => machine.mode ≠ .draining
  | .tick => machine.mode = .user
  | .expire => machine.mode = .draining ∧ headDue machine.timers ≠ none
  | .finish => ∃ due, machine.mode = .calling due
  | .leave => machine.mode = .draining ∧ headDue machine.timers = none

theorem timerStep_call {call : TimerCall} (outside : machine.mode ≠ .draining) :
    timerStep machine (.call call) = machine.apply call := by
  cases isMode : machine.mode with
  | user => simp only [timerStep, isMode]
  | draining => exact absurd isMode outside
  | calling due => simp only [timerStep, isMode]

theorem timerStep_enabled {action : TimerAction} (taken : timerStep machine action = some after) :
    machine.Enabled action := by
  cases action with
  | call call =>
      intro draining
      simp [timerStep, draining] at taken
  | tick =>
      simp only [timerStep] at taken
      split at taken
      · rename_i isUser
        exact isUser
      · cases taken
  | expire =>
      simp only [timerStep] at taken
      split at taken
      · rename_i draining
        obtain ⟨due, isDue, _⟩ := Option.map_eq_some_iff.mp taken
        exact ⟨draining, by simp [isDue]⟩
      · cases taken
  | finish =>
      simp only [timerStep] at taken
      split at taken
      · rename_i due calling
        exact ⟨due, calling⟩
      · cases taken
  | leave =>
      simp only [timerStep] at taken
      split at taken
      · rename_i draining
        split at taken
        · rename_i noneDue
          exact ⟨draining, noneDue⟩
        · cases taken
      · cases taken

/-- One step of a run: it comes to its end. -/
theorem timerStep_law {action : TimerAction} (law : TimerLaw machine order)
    (enabled : machine.Enabled action) (below : StaysBelow machine action)
    (leaves : LeavesOwnTimer machine action) :
    ∃ after added, timerStep machine action = some after ∧ TimerLaw after added := by
  cases action with
  | call call =>
      obtain ⟨after, added, returned, keeps⟩ := apply_law law below
      exact ⟨after, added, (timerStep_call enabled).trans returned, keeps⟩
  | tick =>
      have isUser : machine.mode = .user := enabled
      exact ⟨_, order, by simp only [timerStep, isUser], tick_law law isUser below⟩
  | expire =>
      obtain ⟨draining, someDue⟩ := enabled
      obtain ⟨due, isDue⟩ := Option.ne_none_iff_exists'.mp someDue
      obtain ⟨rest, armed, _, _, _, stepped, keeps⟩ := expire_law law draining isDue
      exact ⟨_, rest, stepped, keeps⟩
  | finish =>
      obtain ⟨due, calling⟩ := enabled
      obtain ⟨outside, kept⟩ := leaves due calling
      rw [law.ordered.path.reaches_iff] at outside
      obtain ⟨timers, added, returned, keeps⟩ :=
        finish_law law calling outside kept (below due calling)
      exact ⟨_, added, by simp only [timerStep, calling, returned, Option.map_some], keeps⟩
  | leave =>
      obtain ⟨draining, noneDue⟩ := enabled
      exact ⟨_, order, by simp only [timerStep, draining, if_pos noneDue],
        leave_law law draining noneDue⟩

theorem TimerLaw.step {action : TimerAction} (law : TimerLaw machine order)
    (below : StaysBelow machine action) (leaves : LeavesOwnTimer machine action)
    (taken : timerStep machine action = some after) : ∃ added, TimerLaw after added := by
  obtain ⟨result, added, returned, keeps⟩ :=
    timerStep_law law (timerStep_enabled taken) below leaves
  rw [taken] at returned
  cases returned
  exact ⟨added, keeps⟩

theorem Reachable.timerLaw
    (reached : Reachable TimersInitialised timerStep
      (fun s a => StaysBelow s a ∧ LeavesOwnTimer s a) machine) :
    ∃ order, TimerLaw machine order :=
  Transition.Reachable.invariant (fun machine => ∃ order, TimerLaw machine order)
    (fun _ begins => ⟨[], begins.law⟩)
    (fun _ _ _ holds permitted taken =>
      holds.elim fun _ law => law.step permitted.1 permitted.2 taken) reached

end MicrokernelRtos
