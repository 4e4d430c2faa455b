/-
Timers are on time.

As long as no callback calls back into the timers, every callback is invoked at
the ticks that its start asked for and at no other.  The same holds with such
calls, unless a callback leaves its own timer in the list when it returns or has
stopped it while it is periodic: the lines behind the callback then write the
timer again, as if it had not been touched.
-/

import MicrokernelRtos.Runs.Timers

namespace MicrokernelRtos

open Linked Transition Agenda

variable {machine after : TimerMachine} {order : List TimerAddr} {t : TimerAddr}

/-- The list is in order, and every callback has been invoked as asked. -/
structure TimersOnTime (machine : TimerMachine) : Prop where
  list : ∃ order, Path machine.timers.next machine.timers.timerList order none ∧ order.Nodup ∧
    order.Pairwise machine.timers.Before ∧ ∀ t ∈ order, machine.timers.active t = true
  invoked : machine.mode = .user → ∀ t armed, machine.arming t = some armed →
    armed.invocations = (armed.toRequest.upTo machine.timers.tickCount).map
      fun tick => { tick := tick, callback := armed.callback, arg := armed.arg }
  noStrays : machine.strays = []

theorem TimerLaw.onTime (law : TimerLaw machine order) : TimersOnTime machine := by
  have ordered := law.ordered
  refine ⟨⟨order, ordered.path, ordered.path.nodup, ordered.sorted, ordered.active⟩, ?_,
    law.noStrays⟩
  intro isUser t armed isArmed
  have onSchedule := law.onSchedule t armed isArmed
  rw [onSchedule.invocations]
  refine congrArg (List.map _) (onSchedule.served.firings_eq fun tick isDue => ?_)
  obtain ⟨member, _, expiry⟩ := law.listed_of_due isArmed isDue (by simp [isUser])
  have ahead := law.ahead t member
  simp only [TimerMachine.horizon, isUser] at ahead
  rw [← expiry]
  exact ahead

/-! ### Ticks come to an end -/

def TimerMachine.nextAction (machine : TimerMachine) : Option TimerAction :=
  match machine.mode with
  | .user => none
  | .draining => some (if headDue machine.timers = none then .leave else .expire)
  | .calling _ => some .finish

/-- `sw_timer_tick_process` from where it stands to its end. -/
def TimerMachine.process : Nat → TimerMachine → Option TimerMachine
  | 0, machine => if machine.mode = .user then some machine else none
  | fuel + 1, machine =>
      match machine.nextAction with
      | none => some machine
      | some action => (timerStep machine action).bind (TimerMachine.process fuel)

def RearmsBelow (machine : TimerMachine) : Prop :=
  ∀ t armed, machine.arming t = some armed → armed.periodic = true →
    armed.due = some machine.timers.tickCount →
    machine.timers.tickCount + armed.ticks < uint32Size

theorem process_step {action : TimerAction} {fuel : Nat}
    (isNext : machine.nextAction = some action) (stepped : timerStep machine action = some after) :
    machine.process (fuel + 1) = after.process fuel := by
  rw [TimerMachine.process, isNext]
  simp only [stepped, Option.bind_some]

def dueNow (machine : TimerMachine) (order : List TimerAddr) : List TimerAddr :=
  order.filter fun t => decide (machine.timers.expiryTick t = machine.timers.tickCount)

theorem TimerLaw.mem_dueNow_iff (law : TimerLaw machine order)
    (draining : machine.mode = .draining) :
    t ∈ dueNow machine order ↔
      ∃ armed, machine.arming t = some armed ∧ armed.due = some machine.timers.tickCount := by
  unfold dueNow
  rw [List.mem_filter, decide_eq_true_eq]
  constructor
  · rintro ⟨member, isNow⟩
    obtain ⟨armed, isArmed, _, expiry⟩ := law.listed t member
    exact ⟨armed, isArmed, by rw [expiry, isNow]⟩
  · rintro ⟨armed, isArmed, isDue⟩
    obtain ⟨member, _, expiry⟩ := law.listed_of_due isArmed isDue (by simp [draining])
    exact ⟨member, expiry⟩

def TimerMachine.served (machine : TimerMachine) (due : TimerAddr) (armed : Arming)
    (timers : Timers) : TimerMachine :=
  { timers := timers
    mode := .draining
    arming := Function.update machine.arming due
      (some (armed.invoked machine.timers.tickCount))
    strays := machine.strays }

/-- One pass of the loop serves one of the timers that expire now. -/
theorem pass_law {due : TimerAddr} (law : TimerLaw machine order)
    (draining : machine.mode = .draining) (isDue : headDue machine.timers = some due)
    (below : RearmsBelow machine) :
    ∃ armed timers added, machine.arming due = some armed ∧
      timerStep machine .expire = some (machine.expired due armed) ∧
      timerStep (machine.expired due armed) .finish = some (machine.served due armed timers) ∧
      TimerLaw (machine.served due armed timers) added ∧
      timers.tickCount = machine.timers.tickCount ∧ due ∈ dueNow machine order ∧
      (armed.invoked machine.timers.tickCount).due ≠ some machine.timers.tickCount := by
  obtain ⟨rest, armed, split, isArmed, isNow, stepped, called⟩ := expire_law law draining isDue
  have recorded : (machine.expired due armed).arming due =
      some (armed.invoked machine.timers.tickCount) := Function.update_self _ _ _
  have outside : due ∉ rest := by
    have distinct := law.ordered.path.nodup
    rw [split] at distinct
    exact (List.nodup_cons.mp distinct).1
  obtain ⟨_, carries, periodic, oneShot⟩ :=
    (called.unlisted due _ outside recorded).called rfl
  have positive := (law.onSchedule due armed isArmed).served.positive
  have later : (armed.invoked machine.timers.tickCount).due ≠ some machine.timers.tickCount := by
    intro again
    cases shape : armed.periodic with
    | true =>
        have next : machine.timers.tickCount + armed.ticks = machine.timers.tickCount :=
          Option.some.inj ((periodic shape).symm.trans again)
        omega
    | false => cases (oneShot shape).symm.trans again
  obtain ⟨timers, added, returned, keeps⟩ := finish_law called rfl outside
    (fun _ => by rw [recorded]; simp)
    (fun isPeriodic => by
      have shape : armed.periodic = true := carries.periodic.symm.trans isPeriodic
      rw [carries.period shape]
      exact below due armed isArmed shape isNow)
  have ticks : timers.tickCount = machine.timers.tickCount := by
    unfold afterCallback at returned
    split at returned
    · obtain ⟨found, _, rfl⟩ := Option.map_eq_some_iff.mp returned
      rfl
    · cases returned
      rfl
  refine ⟨armed, timers, added, isArmed, stepped, ?_, keeps, ticks, ?_, later⟩
  · change (afterCallback (machine.expired due armed).timers due).map _ = _
    rw [returned]
    rfl
  · exact (law.mem_dueNow_iff draining).mpr ⟨armed, isArmed, isNow⟩

theorem served_due {due u : TimerAddr} {armed other : Arming} {timers : Timers}
    (ticks : timers.tickCount = machine.timers.tickCount)
    (later : (armed.invoked machine.timers.tickCount).due ≠ some machine.timers.tickCount)
    (isOther : (machine.served due armed timers).arming u = some other)
    (otherDue : other.due = some (machine.served due armed timers).timers.tickCount) :
    u ≠ due ∧ machine.arming u = some other ∧
      other.due = some machine.timers.tickCount := by
  change other.due = some timers.tickCount at otherDue
  change Function.update machine.arming due _ u = some other at isOther
  rw [ticks] at otherDue
  by_cases same : u = due
  · subst u
    rw [Function.update_self] at isOther
    cases isOther
    exact absurd otherDue later
  · rw [Function.update_of_ne same] at isOther
    exact ⟨same, isOther, otherDue⟩

/-- The loop serves the timers that expire now and ends. -/
theorem process_ends (law : TimerLaw machine order) (draining : machine.mode = .draining)
    (below : RearmsBelow machine) :
    ∃ fuel ended, machine.process fuel = some ended ∧ ended.mode = .user ∧
      ended.timers.tickCount = machine.timers.tickCount := by
  -- on the number of timers of the list that expire now
  induction pending : (dueNow machine order).length using Nat.strong_induction_on
    generalizing machine order with
  | _ count ih =>
      cases isDue : headDue machine.timers with
      | none =>
          refine ⟨1, { machine with mode := .user }, ?_, rfl, rfl⟩
          rw [@process_step machine { machine with mode := .user } .leave 0]
          · rfl
          · simp [TimerMachine.nextAction, draining, isDue]
          · simp [timerStep, draining, isDue]
      | some due =>
          obtain ⟨armed, timers, added, isArmed, expires, finishes, keeps, ticks, member, later⟩ :=
            pass_law law draining isDue below
          have fewer : dueNow (machine.served due armed timers) added ⊆
              (dueNow machine order).erase due := by
            intro u inside
            obtain ⟨other, isOther, otherDue⟩ := (keeps.mem_dueNow_iff rfl).mp inside
            obtain ⟨different, wasArmed, wasDue⟩ := served_due ticks later isOther otherDue
            refine (List.mem_erase_of_ne different).mpr ?_
            exact (law.mem_dueNow_iff draining).mpr ⟨other, wasArmed, wasDue⟩
          have distinct : (dueNow (machine.served due armed timers) added).Nodup :=
            keeps.ordered.path.nodup.filter _
          have shorter := (distinct.subperm fewer).length_le
          rw [List.length_erase_of_mem member] at shorter
          have positive := List.length_pos_of_mem member
          have stillBelow : RearmsBelow (machine.served due armed timers) := by
            intro u other isOther periodic otherDue
            obtain ⟨_, wasArmed, wasDue⟩ := served_due ticks later isOther otherDue
            change timers.tickCount + _ < _
            rw [ticks]
            exact below u other wasArmed periodic wasDue
          obtain ⟨fuel, ended, processed, isUser, endTicks⟩ :=
            ih _ (by omega) keeps rfl stillBelow rfl
          refine ⟨fuel + 2, ended, ?_, isUser, endTicks.trans ticks⟩
          rw [process_step _ expires, process_step rfl finishes]
          · exact processed
          · simp [TimerMachine.nextAction, draining, isDue]

/-! ### Callbacks that call nothing -/

/-- Only the application calls. -/
def CallsOutside (machine : TimerMachine) : TimerAction → Prop
  | .call _ => machine.mode = .user
  | _ => True

def Untouched (machine : TimerMachine) : Prop :=
  ∀ due, machine.mode = .calling due →
    ¬ Reaches machine.timers.next machine.timers.timerList due ∧ machine.arming due ≠ none

theorem Untouched.leaves {action : TimerAction} (untouched : Untouched machine) :
    LeavesOwnTimer machine action := by
  cases action with
  | finish =>
      intro due calling
      exact ⟨(untouched due calling).1, fun _ => (untouched due calling).2⟩
  | _ => trivial

theorem apply_mode {call : TimerCall} (applied : machine.apply call = some after) :
    after.mode = machine.mode := by
  cases call with
  | startOnce t delayTicks cb arg =>
      obtain ⟨returned, _, rfl⟩ := Option.map_eq_some_iff.mp applied
      rfl
  | startPeriodic t periodTicks cb arg =>
      obtain ⟨returned, _, rfl⟩ := Option.map_eq_some_iff.mp applied
      rfl
  | stop t =>
      obtain ⟨stopped, _, rfl⟩ := Option.map_eq_some_iff.mp applied
      rfl

theorem timerStep_untouched {action : TimerAction} (law : TimerLaw machine order)
    (outside : CallsOutside machine action) (taken : timerStep machine action = some after) :
    Untouched after := by
  have settled : ∀ {mode : TimerMode}, after.mode = mode → (∀ due, mode ≠ .calling due) →
      Untouched after := by
    intro mode isMode notCalling due calling
    exact absurd (isMode.symm.trans calling) (notCalling due)
  cases action with
  | call call =>
      have isUser : machine.mode = .user := outside
      simp only [timerStep, isUser] at taken
      exact settled ((apply_mode taken).trans isUser) (by simp)
  | tick =>
      simp only [timerStep] at taken
      split at taken
      · cases taken
        exact settled rfl (by simp)
      · cases taken
  | finish =>
      simp only [timerStep] at taken
      split at taken
      · obtain ⟨timers, _, rfl⟩ := Option.map_eq_some_iff.mp taken
        exact settled rfl (by simp)
      · cases taken
  | leave =>
      simp only [timerStep] at taken
      split at taken
      · split at taken
        · cases taken
          exact settled rfl (by simp)
        · cases taken
      · cases taken
  | expire =>
      obtain ⟨draining, someDue⟩ := timerStep_enabled taken
      obtain ⟨due, isDue⟩ := Option.ne_none_iff_exists'.mp someDue
      obtain ⟨rest, armed, split, _, _, stepped, keeps⟩ := expire_law law draining isDue
      rw [stepped] at taken
      cases taken
      have distinct := law.ordered.path.nodup
      rw [split] at distinct
      intro called calling
      cases calling
      rw [keeps.ordered.path.reaches_iff]
      refine ⟨(List.nodup_cons.mp distinct).1, ?_⟩
      rw [TimerMachine.expired]
      simp

theorem Reachable.plainCallbacks
    (reached : Reachable TimersInitialised timerStep
      (fun s a => StaysBelow s a ∧ CallsOutside s a) machine) :
    (∃ order, TimerLaw machine order) ∧ Untouched machine := by
  refine Transition.Reachable.invariant
    (fun machine => (∃ order, TimerLaw machine order) ∧ Untouched machine) ?_ ?_ reached
  · intro machine begins
    refine ⟨⟨[], begins.law⟩, fun due calling => ?_⟩
    rw [begins.mode] at calling
    cases calling
  · rintro machine action after ⟨⟨order, law⟩, untouched⟩ permitted taken
    exact ⟨law.step permitted.1 untouched.leaves taken,
      timerStep_untouched law permitted.2 taken⟩

/-- A stop returns, takes the timer out of the list and leaves the others alone. -/
def StopRemoves (machine : TimerMachine) : Prop :=
  machine.mode ≠ .draining → ∀ t, ∃ after order,
    timerStep machine (.call (.stop (some t))) = some after ∧
      Path machine.timers.next machine.timers.timerList order none ∧
      Path after.timers.next after.timers.timerList (order.erase t) none ∧
      ∀ u, u ≠ t → SameTimer machine.timers after.timers u ∧
        after.arming u = machine.arming u

/-- Every step that is permitted and whose turn it is comes to its end. -/
def StepsEnd (permitted : TimerMachine → TimerAction → Prop) (machine : TimerMachine) : Prop :=
  ∀ action, machine.Enabled action → permitted machine action →
    ∃ after, timerStep machine action = some after

/-- The next tick, if nothing wraps in it, is processed to its end. -/
def TickEnds (machine : TimerMachine) : Prop :=
  machine.mode = .user → machine.timers.tickCount + 1 < uint32Size →
  (∀ t, Reaches machine.timers.next machine.timers.timerList t →
    machine.timers.periodic t = true →
    machine.timers.expiryTick t = machine.timers.tickCount + 1 →
    machine.timers.tickCount + 1 + machine.timers.periodTicks t < uint32Size) →
  ∃ fuel ended, (timerStep machine .tick).bind (TimerMachine.process fuel) = some ended ∧
    ended.mode = .user ∧ ended.timers.tickCount = machine.timers.tickCount + 1

theorem TimerLaw.stopRemoves (law : TimerLaw machine order) : StopRemoves machine := by
  intro outside t
  obtain ⟨timers, returned, keeps, others⟩ := stop_law law t
  refine ⟨_, order, (timerStep_call outside).trans ?_, law.ordered.path, keeps.ordered.path,
    fun u different => ⟨others u different, Function.update_of_ne different _ _⟩⟩
  rw [TimerMachine.apply, returned]
  rfl

theorem TimerLaw.tickEnds (law : TimerLaw machine order) : TickEnds machine := by
  intro isUser below rearms
  have ticked := tick_law law isUser below
  have rearmsBelow := @process_ends _ order ticked rfl ?_
  · obtain ⟨fuel, ended, processed, endsUser, ticks⟩ := rearmsBelow
    refine ⟨fuel, ended, ?_, endsUser, ticks.trans (Nat.mod_eq_of_lt below)⟩
    simp only [timerStep, isUser, Option.bind_some]
    exact processed
  · intro t armed isArmed periodic isDue
    dsimp only at isArmed isDue ⊢
    rw [Nat.mod_eq_of_lt below] at isDue ⊢
    obtain ⟨member, carries, isNext⟩ := law.listed_of_due isArmed isDue (by simp [isUser])
    have fits := rearms t (law.ordered.path.reaches member) (carries.periodic.trans periodic)
      isNext
    rw [carries.period periodic] at fits
    exact fits

/-! ### The conditions of a run, computed -/

def Timers.lists (timers : Timers) (t : TimerAddr) : Bool :=
  match readChain timers.next timerWalkLimit timers.timerList with
  | none => true
  | some order => decide (t ∈ order)

theorem not_reaches_of_lists {timers : Timers} (absent : timers.lists t = false) :
    ¬ Reaches timers.next timers.timerList t := by
  unfold Timers.lists at absent
  split at absent
  · cases absent
  · rename_i order isRead
    rw [(readChain_path isRead).reaches_iff]
    exact of_decide_eq_false absent

def startCheck (timers : Timers) (t : Option TimerAddr) (ticks : Nat) : Bool :=
  match t with
  | none => true
  | some t => !timers.lists t && decide (timers.tickCount + ticks < uint32Size)

theorem startFits_of_check {timers : Timers} {target : Option TimerAddr} {ticks : Nat}
    {cb : Option Nat} (checked : startCheck timers target ticks = true) :
    StartFits timers target ticks cb := by
  rintro u rfl _ _
  simp only [startCheck, Bool.and_eq_true, Bool.not_eq_true', decide_eq_true_eq] at checked
  exact ⟨not_reaches_of_lists checked.1, checked.2⟩

def belowCheck (machine : TimerMachine) : TimerAction → Bool
  | .call (.startOnce t delayTicks _ _) => startCheck machine.timers t delayTicks
  | .call (.startPeriodic t periodTicks _ _) => startCheck machine.timers t periodTicks
  | .tick => decide (machine.timers.tickCount + 1 < uint32Size)
  | .finish =>
      match machine.mode with
      | .calling due => decide
          (machine.timers.tickCount + machine.timers.periodTicks due < uint32Size)
      | _ => true
  | _ => true

theorem staysBelow_of_check {action : TimerAction} (checked : belowCheck machine action = true) :
    StaysBelow machine action := by
  cases action with
  | call call =>
      cases call with
      | startOnce t delayTicks cb arg => exact startFits_of_check checked
      | startPeriodic t periodTicks cb arg => exact startFits_of_check checked
      | stop t => trivial
  | tick =>
      have below : machine.timers.tickCount + 1 < uint32Size := of_decide_eq_true checked
      exact below
  | finish =>
      intro due calling _
      simp only [belowCheck, calling, decide_eq_true_eq] at checked
      exact checked
  | expire => trivial
  | leave => trivial

def outsideCheck (machine : TimerMachine) : TimerAction → Bool
  | .call _ => decide (machine.mode = .user)
  | _ => true

theorem callsOutside_of_check {action : TimerAction}
    (checked : outsideCheck machine action = true) : CallsOutside machine action := by
  cases action with
  | call call =>
      have isUser : machine.mode = .user := of_decide_eq_true checked
      exact isUser
  | _ => trivial

def leavesCheck (machine : TimerMachine) : TimerAction → Bool
  | .finish =>
      match machine.mode with
      | .calling due => !machine.timers.lists due &&
          (!machine.timers.periodic due || (machine.arming due).isSome)
      | _ => true
  | _ => true

theorem leavesOwnTimer_of_check {action : TimerAction}
    (checked : leavesCheck machine action = true) : LeavesOwnTimer machine action := by
  cases action with
  | finish =>
      intro due calling
      simp only [leavesCheck, calling, Bool.and_eq_true, Bool.not_eq_true', Bool.or_eq_true]
        at checked
      refine ⟨not_reaches_of_lists checked.1, fun periodic none => ?_⟩
      rw [periodic, none] at checked
      simp at checked
  | _ => trivial

/-! ### Runs -/

/-- Every run with callbacks that call nothing. -/
theorem timersOnTime_of_reachable
    (reached : Reachable TimersInitialised timerStep
      (fun s a => StaysBelow s a ∧ CallsOutside s a) machine) :
    TimersOnTime machine ∧ StopRemoves machine ∧ TickEnds machine ∧
      StepsEnd (fun s a => StaysBelow s a ∧ CallsOutside s a) machine := by
  obtain ⟨⟨order, law⟩, untouched⟩ := Reachable.plainCallbacks reached
  refine ⟨law.onTime, law.stopRemoves, law.tickEnds, fun action enabled permitted => ?_⟩
  obtain ⟨after, _, returned, _⟩ := timerStep_law law enabled permitted.1 untouched.leaves
  exact ⟨after, returned⟩

def onceAndPeriodic : List TimerAction :=
  [.call (.startOnce (some 1) 2 (some 7) 0), .call (.startPeriodic (some 2) 1 (some 8) 0), .tick,
    .expire, .finish, .leave, .tick, .expire, .finish, .expire, .finish, .leave]

theorem timersOnTime_after_two_ticks :
    ∃ machine, Reachable TimersInitialised timerStep
        (fun s a => StaysBelow s a ∧ CallsOutside s a) machine ∧
      machine.timers.tickCount = 2 ∧
      machine.arming 1 = some
        { armedAt := 0, ticks := 2, periodic := false, callback := 7, arg := 0,
          invocations := [{ tick := 2, callback := 7, arg := 0 }] } ∧
      machine.arming 2 = some
        { armedAt := 0, ticks := 1, periodic := true, callback := 8, arg := 0,
          invocations := [{ tick := 1, callback := 8, arg := 0 },
            { tick := 2, callback := 8, arg := 0 }] } ∧
      TimersOnTime machine ∧ StopRemoves machine ∧ TickEnds machine ∧
      StepsEnd (fun s a => StaysBelow s a ∧ CallsOutside s a) machine := by
  obtain ⟨final, reached, found⟩ :=
    @exists_reachable_of_run TimerMachine TimerAction TimersInitialised timerStep
      (fun s a => StaysBelow s a ∧ CallsOutside s a)
      (fun s a => belowCheck s a && outsideCheck s a)
      (fun s => decide (s.timers.tickCount = 2) &&
        decide (s.arming 1 = some
          { armedAt := 0, ticks := 2, periodic := false, callback := 7, arg := 0,
            invocations := [{ tick := 2, callback := 7, arg := 0 }] }) &&
        decide (s.arming 2 = some
          { armedAt := 0, ticks := 1, periodic := true, callback := 8, arg := 0,
            invocations := [{ tick := 1, callback := 8, arg := 0 },
              { tick := 2, callback := 8, arg := 0 }] }))
      (fun _ _ checked => by
        rw [Bool.and_eq_true] at checked
        exact ⟨staysBelow_of_check checked.1, callsOutside_of_check checked.2⟩)
      onceAndPeriodic initialTimers timersInitialised_initialTimers (by decide +kernel)
  simp only [Bool.and_eq_true, decide_eq_true_eq] at found
  exact ⟨final, reached, found.1.1, found.1.2, found.2, timersOnTime_of_reachable reached⟩

/-- Every run in which no callback leaves its own timer in the list or has stopped
it while it is periodic. -/
theorem timersOnTime_with_calls
    (reached : Reachable TimersInitialised timerStep
      (fun s a => StaysBelow s a ∧ LeavesOwnTimer s a) machine) :
    TimersOnTime machine ∧ TickEnds machine ∧
      StepsEnd (fun s a => StaysBelow s a ∧ LeavesOwnTimer s a) machine := by
  obtain ⟨order, law⟩ := Reachable.timerLaw reached
  refine ⟨law.onTime, law.tickEnds, fun action enabled permitted => ?_⟩
  obtain ⟨after, _, returned, _⟩ := timerStep_law law enabled permitted.1 permitted.2
  exact ⟨after, returned⟩

def callsFromCallbacks : List TimerAction :=
  [.call (.startOnce (some 1) 1 (some 7) 0), .call (.startOnce (some 2) 2 (some 8) 0), .tick,
    .expire, .call (.stop (some 2)), .call (.startOnce (some 3) 1 (some 9) 0), .finish, .leave,
    .tick, .expire, .call (.startOnce (some 3) 4 (some 9) 0), .call (.stop (some 3)), .finish,
    .leave]

theorem timersOnTime_after_calls :
    ∃ machine, Reachable TimersInitialised timerStep
        (fun s a => StaysBelow s a ∧ LeavesOwnTimer s a) machine ∧
      machine.timers.tickCount = 2 ∧ machine.timers.timerList = none ∧
      TimersOnTime machine ∧ TickEnds machine ∧
      StepsEnd (fun s a => StaysBelow s a ∧ LeavesOwnTimer s a) machine := by
  obtain ⟨final, reached, found⟩ :=
    @exists_reachable_of_run TimerMachine TimerAction TimersInitialised timerStep
      (fun s a => StaysBelow s a ∧ LeavesOwnTimer s a)
      (fun s a => belowCheck s a && leavesCheck s a)
      (fun s => decide (s.timers.tickCount = 2) && decide (s.timers.timerList = none))
      (fun _ _ checked => by
        rw [Bool.and_eq_true] at checked
        exact ⟨staysBelow_of_check checked.1, leavesOwnTimer_of_check checked.2⟩)
      callsFromCallbacks initialTimers timersInitialised_initialTimers (by decide +kernel)
  simp only [Bool.and_eq_true, decide_eq_true_eq] at found
  exact ⟨final, reached, found.1, found.2, timersOnTime_with_calls reached⟩

def rearmOwnTimer : List TimerAction :=
  [.call (.startOnce (some 1) 1 (some 7) 0), .tick, .expire,
    .call (.startOnce (some 1) 1 (some 7) 0), .finish, .leave, .tick, .leave]

/-- The timer is in the list and no longer active, and the next tick passes without
an invocation. -/
theorem timersOnTime_fails :
    ∃ machine, Reachable TimersInitialised timerStep StaysBelow machine ∧
      ¬ TimersOnTime machine := by
  obtain ⟨final, reached, found⟩ :=
    @exists_reachable_of_run TimerMachine TimerAction TimersInitialised timerStep StaysBelow
      belowCheck
      (fun s => decide (s.mode = .user) && decide (s.timers.tickCount = 2) &&
        decide (s.arming 1 = some
          { armedAt := 1, ticks := 1, periodic := false, callback := 7, arg := 0,
            invocations := [] }))
      (fun _ _ checked => staysBelow_of_check checked) rearmOwnTimer initialTimers
      timersInitialised_initialTimers (by decide +kernel)
  simp only [Bool.and_eq_true, decide_eq_true_eq] at found
  obtain ⟨⟨isUser, ticks⟩, isArmed⟩ := found
  refine ⟨final, reached, fun onTime => ?_⟩
  have asked := onTime.invoked isUser 1 _ isArmed
  rw [ticks] at asked
  revert asked
  decide

end MicrokernelRtos
