/-
How long a timed wait lasts.

A task that has blocked with a timeout is left alone until the tick that finds it
due.  The wake time is a sum in 32-bit arithmetic, compared as a number, and its
largest value stands for no timeout: the wait has the right length for some sums
and not for others.
-/

import MicrokernelRtos.Runs.Wakeups

namespace MicrokernelRtos

open Transition

variable {machine after start : Machine} {action : RegionAction} {self t : Addr} {call : Call}
variable {kernel : Kernel} {deadline n ticks : Nat} {allowed : Machine → RegionAction → Prop}
variable {wakeable : Prop}

/-- So many ticks have passed, with any other steps before, between and behind
them that are allowed and have not woken or deleted the task. -/
inductive Elapsed (allowed : Machine → RegionAction → Prop) (t : Addr) (start : Machine) :
    Nat → Machine → Prop where
  | begin : Elapsed allowed t start 0 start
  | other {n : Nat} {machine after : Machine} {action : RegionAction}
      (before : Elapsed allowed t start n machine) (permitted : allowed machine action)
      (notTick : action ≠ .sysTick) (notDeleted : action ≠ .delete t)
      (taken : regionStep machine action = some after)
      (asleep : after.kernel.state t = machine.kernel.state t) : Elapsed allowed t start n after
  | tick {n : Nat} {machine after : Machine} (before : Elapsed allowed t start n machine)
      (taken : regionStep machine .sysTick = some after) : Elapsed allowed t start (n + 1) after

/-- Each of the next ticks returns.  On a list that has been damaged a handler may
walk in a circle. -/
def TicksReturn (allowed : Machine → RegionAction → Prop) (t : Addr) (ticks : Nat)
    (start : Machine) : Prop :=
  ∀ n machine, Elapsed allowed t start n machine → n < ticks →
    ∃ after, regionStep machine .sysTick = some after

/-- The wait lasts `ticks` ticks: before that many have passed the task is
BLOCKED, every tick but the last leaves it so, and the last makes it READY. -/
def LastsExactly (allowed : Machine → RegionAction → Prop) (t : Addr) (ticks : Nat)
    (start : Machine) : Prop :=
  ∀ n machine, Elapsed allowed t start n machine → n < ticks →
    machine.kernel.state t = .blocked ∧
      ∃ after, regionStep machine .sysTick = some after ∧
        after.kernel.tickCount = (start.kernel.tickCount + n + 1) % uint32Size ∧
        after.kernel.state t = if n + 1 = ticks then .ready else .blocked

/-- The loop of `rtos_wake_delayed` comes to the task and finds a reason to wake
it from. -/
def Wakeable (core : Core) (t : Addr) : Prop :=
  t ∈ core.taskRegistry ∧ core.blockReason t ≠ .none

def Due (deadline now : Nat) : Prop := deadline ≠ uint32Max ∧ deadline ≤ now

/-! ### A task that sleeps -/

theorem regionStep_idle (taken : regionStep machine action = some after) :
    after.kernel.idleTcb = machine.kernel.idleTcb := by
  rcases regionStep_cases taken with ⟨kernel, background, rfl⟩ |
    ⟨tcb, priority, added, _, _, _, addition, rfl⟩ | ⟨tcb, kernel, _, _, _, deletion, rfl⟩ |
    ⟨self, call, _, _, rfl⟩ | ⟨self, _, _, moves⟩
  · cases background with
    | refused action => rfl
    | tick ticked => exact (sysTickHandler_quiet ticked).idle
    | @select sel _ selected =>
        obtain ⟨state, counter, fields⟩ := select_core machine.kernel sel
        rw [(schedulerGetNext_onlyRings selected).core, fields]
    | dispatch sel _ _ =>
        obtain ⟨state, counter, fields⟩ := select_core machine.kernel sel
        rw [fields]
  · change added.idleTcb = _
    rw [(schedulerAddTask_onlyRings (Function.update_self _ _ _) addition).core]
    rfl
  · rcases taskDelete_cases deletion with
      ⟨refused, _⟩ | ⟨target, detached, removed, _, _, _, _, detachment, removal, rfl⟩
    · exact absurd rfl refused
    · obtain ⟨reason, object, onMutex, fields, _⟩ := detachIfBlocked_core detachment
      change removed.idleTcb = _
      rw [(schedulerRemoveTask_onlyRings removal).core, fields]
  · obtain ⟨place, _, same⟩ := enter_pc machine self call
    rw [same]
  · rcases advance_cases moves with ⟨call, outcome, kernel, _, region, rfl⟩ | ⟨call, _, rfl⟩ |
      ⟨call, kernel, _, region, rfl⟩ | ⟨call, _, _, rfl⟩
    · have kept : kernel.idleTcb = machine.kernel.idleTcb := by
        rw [(callRegion_writes region).fields]
      cases outcome with
      | returns status out => exact kept
      | blocks => exact kept
    · rfl
    · change kernel.idleTcb = _
      rw [(blockRegion_onlyRings region).core]
      rfl
    · rw [(wakeUp_moves machine self call).1]

def IdleInUser (machine : Machine) : Prop :=
  ∀ t, some t = machine.kernel.idleTcb → machine.pc t = .user

theorem idleInUser_step (holds : IdleInUser machine)
    (taken : regionStep machine action = some after) : IdleInUser after := by
  intro t isIdle
  rw [regionStep_idle taken] at isIdle
  have home := holds t isIdle
  rcases regionStep_cases taken with ⟨kernel, _, rfl⟩ | ⟨tcb, priority, added, _, _, _, _, rfl⟩ |
    ⟨tcb, kernel, _, _, _, _, rfl⟩ | ⟨self, call, isCurrent, user, rfl⟩ | ⟨self, _, _, moves⟩
  · exact home
  · by_cases same : t = tcb
    · subst t
      exact Function.update_self _ _ _
    · exact (Function.update_of_ne same _ _).trans home
  · by_cases same : t = tcb
    · subst t
      exact Function.update_self _ _ _
    · exact (Function.update_of_ne same _ _).trans home
  · obtain ⟨place, places, _⟩ := enter_pc machine self call
    have different : t ≠ self := by
      rintro rfl
      exact (inUser_some user isCurrent).1 isIdle
    rw [places, Function.update_of_ne different]
    exact home
  · obtain ⟨place, places⟩ := advance_pc moves
    have different : t ≠ self := by
      rintro rfl
      unfold Machine.advance at moves
      rw [home] at moves
      cases moves
    rw [places, Function.update_of_ne different]
    exact home

theorem Reachable.idleInUser (reached : Reachable PoweredUp regionStep allowed machine) :
    IdleInUser machine :=
  Transition.Reachable.invariant IdleInUser
    (fun s powered t _ => by rw [powered.pc])
    (fun _ _ _ holds _ taken => idleInUser_step holds taken) reached

/-- The task is in the wait loop, with this wake time. -/
structure Dozes (machine : Machine) (t : Addr) (wakeable : Prop) (deadline : Nat) : Prop where
  place : ∃ call, machine.pc t = .blocked call
  notIdle : some t ≠ machine.kernel.idleTcb
  blocked : machine.kernel.state t = .blocked
  wakeable : Wakeable machine.kernel.toCore t ↔ wakeable
  wakeTime : machine.kernel.wakeTime t = deadline

structure LeavesAsleep (before after : Core) (t : Addr) : Prop where
  live : t ∈ after.taskRegistry ↔ t ∈ before.taskRegistry
  tick : after.tickCount = before.tickCount
  wakeTime : after.wakeTime t = before.wakeTime t
  reason : after.blockReason t = before.blockReason t

theorem LeavesAsleep.refl (core : Core) (t : Addr) : LeavesAsleep core core t :=
  ⟨Iff.rfl, rfl, rfl, rfl⟩

theorem background_leavesAsleep (notTick : action ≠ .sysTick)
    (background : Background machine.kernel action kernel) :
    LeavesAsleep machine.kernel.toCore kernel.toCore t := by
  cases background with
  | refused action => exact .refl _ t
  | tick ticked => exact absurd rfl notTick
  | @select sel _ selected =>
      obtain ⟨state, counter, fields⟩ := select_core machine.kernel sel
      rw [(schedulerGetNext_onlyRings selected).core, fields]
      exact ⟨Iff.rfl, rfl, rfl, rfl⟩
  | dispatch sel _ _ =>
      obtain ⟨state, counter, fields⟩ := select_core machine.kernel sel
      rw [fields]
      exact ⟨Iff.rfl, rfl, rfl, rfl⟩

/-- The block of a sleeping task is not given to a new one: that would be READY. -/
theorem create_leavesAsleep {tcb priority : Nat} {added : Kernel}
    (addition : schedulerAddTask (freshTask machine.kernel tcb priority (prioBucket priority))
      (some tcb) = some (.ok, added)) (still : added.state t = .blocked) :
    t ≠ tcb ∧ LeavesAsleep machine.kernel.toCore
      { added with taskRegistry := added.taskRegistry ++ [tcb] }.toCore t := by
  have core := (schedulerAddTask_onlyRings (Function.update_self _ _ _) addition).core
  have different : t ≠ tcb := by
    rintro rfl
    rw [core] at still
    simp [freshTask] at still
  refine ⟨different, ?_⟩
  rw [core]
  refine ⟨?_, rfl, ?_, ?_⟩
  · simp [freshTask, different]
  · exact Function.update_of_ne different _ _
  · exact Function.update_of_ne different _ _

theorem delete_leavesAsleep {tcb : Addr} (different : t ≠ tcb)
    (deletion : taskDelete machine.kernel (some tcb) = some (.ok, kernel)) :
    LeavesAsleep machine.kernel.toCore kernel.toCore t := by
  rcases taskDelete_cases deletion with
    ⟨refused, _⟩ | ⟨target, detached, removed, isTask, _, _, _, detachment, removal, rfl⟩
  · exact absurd rfl refused
  · cases isTask
    obtain ⟨reason, object, onMutex, fields, elsewhere⟩ := detachIfBlocked_core detachment
    rw [(schedulerRemoveTask_onlyRings removal).core.trans fields]
    exact ⟨List.mem_erase_of_ne different, rfl, rfl, (elsewhere t different).1⟩

theorem advance_ne (place : machine.pc t = .blocked call)
    (blocked : machine.kernel.state t = .blocked) (moves : machine.advance self = some after) :
    t ≠ self := by
  rintro rfl
  unfold Machine.advance at moves
  rw [place] at moves
  simp only [blocked, if_true] at moves
  cases moves

theorem advance_leavesAsleep (different : t ≠ self) (moves : machine.advance self = some after)
    (still : after.kernel.state t = .blocked) :
    LeavesAsleep machine.kernel.toCore after.kernel.toCore t := by
  rcases advance_cases moves with ⟨call, outcome, kernel, _, region, rfl⟩ | ⟨call, _, rfl⟩ |
    ⟨call, kernel, _, region, rfl⟩ | ⟨call, _, _, rfl⟩
  · have writes := callRegion_writes region
    have leaves : kernel.state t = .blocked →
        LeavesAsleep machine.kernel.toCore kernel.toCore t := by
      intro isBlocked
      refine ⟨?_, ?_, ?_, writes.reason isBlocked⟩
      · rw [writes.fields]
      · rw [writes.fields]
      · rw [writes.fields]
    cases outcome with
    | returns status out => exact leaves still
    | blocks => exact leaves still
  · exact ⟨Iff.rfl, rfl, rfl, Function.update_of_ne different _ _⟩
  · change LeavesAsleep machine.kernel.toCore kernel.toCore t
    rw [(blockRegion_onlyRings region).core]
    exact ⟨Iff.rfl, rfl, Function.update_of_ne different _ _, rfl⟩
  · rw [(wakeUp_moves machine self call).1]
    exact .refl _ t

theorem regionStep_leavesAsleep (place : machine.pc t = .blocked call)
    (blocked : machine.kernel.state t = .blocked) (notTick : action ≠ .sysTick)
    (notDeleted : action ≠ .delete t) (taken : regionStep machine action = some after)
    (still : after.kernel.state t = .blocked) :
    after.pc t = .blocked call ∧ LeavesAsleep machine.kernel.toCore after.kernel.toCore t := by
  rcases regionStep_cases taken with ⟨kernel, background, rfl⟩ |
    ⟨tcb, priority, added, _, _, _, addition, rfl⟩ | ⟨tcb, kernel, rfl, _, _, deletion, rfl⟩ |
    ⟨self, other, isCurrent, user, rfl⟩ | ⟨self, rfl, _, moves⟩
  · exact ⟨place, background_leavesAsleep notTick background⟩
  · obtain ⟨different, leaves⟩ := create_leavesAsleep addition still
    exact ⟨(Function.update_of_ne different _ _).trans place, leaves⟩
  · have different : t ≠ tcb := fun same => notDeleted (by rw [same])
    exact ⟨(Function.update_of_ne different _ _).trans place,
      delete_leavesAsleep different deletion⟩
  · obtain ⟨moved, places, same⟩ := enter_pc machine self other
    have different : t ≠ self := by
      rintro rfl
      rw [(inUser_some user isCurrent).2] at place
      cases place
    rw [places, same, Function.update_of_ne different]
    exact ⟨place, .refl _ t⟩
  · obtain ⟨moved, places⟩ := advance_pc moves
    have different := advance_ne place blocked moves
    rw [places, Function.update_of_ne different]
    exact ⟨place, advance_leavesAsleep different moves still⟩

theorem Dozes.other (dozes : Dozes machine t wakeable deadline) (notTick : action ≠ .sysTick)
    (notDeleted : action ≠ .delete t) (taken : regionStep machine action = some after)
    (asleep : after.kernel.state t = machine.kernel.state t) :
    Dozes after t wakeable deadline ∧ after.kernel.tickCount = machine.kernel.tickCount := by
  obtain ⟨call, place⟩ := dozes.place
  have still := asleep.trans dozes.blocked
  obtain ⟨placeAfter, leaves⟩ :=
    regionStep_leavesAsleep place dozes.blocked notTick notDeleted taken still
  refine ⟨⟨⟨call, placeAfter⟩, ?_, still, ?_, ?_⟩, leaves.tick⟩
  · rw [regionStep_idle taken]
    exact dozes.notIdle
  · rw [← dozes.wakeable]
    unfold Wakeable
    rw [leaves.live, leaves.reason]
  · rw [leaves.wakeTime]
    exact dozes.wakeTime

theorem Dozes.expires_iff (dozes : Dozes machine t wakeable deadline) (now : Nat) :
    (t ∈ machine.kernel.taskRegistry ∧ Expires (rtosTickIncrement machine.kernel) now t) ↔
      wakeable ∧ Due deadline now := by
  have blocked : (rtosTickIncrement machine.kernel).state t = .blocked := dozes.blocked
  have wakeTime : (rtosTickIncrement machine.kernel).wakeTime t = deadline := dozes.wakeTime
  have notIdle : some t ≠ (rtosTickIncrement machine.kernel).idleTcb := dozes.notIdle
  rw [← dozes.wakeable]
  simp only [Expires, isDue, Due, Wakeable, blocked, wakeTime, notIdle, decide_true, ne_eq,
    not_false_iff, Bool.true_and, Bool.and_eq_true, decide_eq_true_eq]
  constructor
  · rintro ⟨live, due, reason⟩
    exact ⟨⟨live, reason⟩, due⟩
  · rintro ⟨⟨live, reason⟩, due⟩
    exact ⟨live, due, reason⟩

theorem Dozes.tick (dozes : Dozes machine t wakeable deadline)
    (taken : regionStep machine .sysTick = some after) :
    after.kernel.tickCount = (machine.kernel.tickCount + 1) % uint32Size ∧
      (wakeable ∧ Due deadline after.kernel.tickCount → after.kernel.state t = .ready) ∧
      (¬ (wakeable ∧ Due deadline after.kernel.tickCount) → Dozes after t wakeable deadline) := by
  obtain ⟨ticked, returned, rfl⟩ := Option.map_eq_some_iff.mp taken
  obtain ⟨woken, wakes, core⟩ := sysTickHandler_core returned
  have fields := wakes.fields
  have tickIs : ticked.tickCount = (machine.kernel.tickCount + 1) % uint32Size := by
    rw [core, fields]
    rfl
  have tested : (rtosTickIncrement machine.kernel).tickCount = ticked.tickCount := tickIs.symm
  rw [tested] at wakes
  refine ⟨tickIs, fun due => ?_, fun notDue => ?_⟩
  · change ticked.state t = .ready
    rw [core]
    exact wakes.ready t ((dozes.expires_iff _).mpr due)
  · have sleeps : ¬ (t ∈ machine.kernel.taskRegistry ∧
        Expires (rtosTickIncrement machine.kernel) ticked.tickCount t) :=
      fun both => notDue ((dozes.expires_iff _).mp both)
    refine ⟨dozes.place, ?_, ?_, ?_, ?_⟩
    · change some t ≠ ticked.idleTcb
      rw [core, fields]
      exact dozes.notIdle
    · change ticked.state t = .blocked
      rw [core]
      exact (wakes.state t sleeps).trans dozes.blocked
    · rw [← dozes.wakeable]
      have registry : ticked.taskRegistry = machine.kernel.taskRegistry := by
        rw [core, fields]
        rfl
      have reason : ticked.blockReason t = machine.kernel.blockReason t := by
        rw [core]
        exact wakes.reason t sleeps
      unfold Wakeable
      rw [registry, reason]
    · change ticked.wakeTime t = deadline
      rw [core, fields]
      exact dozes.wakeTime

theorem Elapsed.dozes (dozes : Dozes start t wakeable deadline)
    (range : start.kernel.tickCount < uint32Size) (elapsed : Elapsed allowed t start n machine)
    (early : ∀ k, 0 < k → k ≤ n →
      ¬ (wakeable ∧ Due deadline ((start.kernel.tickCount + k) % uint32Size))) :
    Dozes machine t wakeable deadline ∧
      machine.kernel.tickCount = (start.kernel.tickCount + n) % uint32Size := by
  induction elapsed with
  | begin => exact ⟨dozes, (Nat.mod_eq_of_lt range).symm⟩
  | other before permitted notTick notDeleted taken asleep ih =>
      obtain ⟨sleeping, tickIs⟩ := ih early
      obtain ⟨still, sameTick⟩ := sleeping.other notTick notDeleted taken asleep
      exact ⟨still, sameTick.trans tickIs⟩
  | @tick n middle final before taken ih =>
      obtain ⟨sleeping, tickIs⟩ := ih fun k positive bounded => early k positive (by omega)
      obtain ⟨nextTick, _, notDue⟩ := sleeping.tick taken
      rw [tickIs, Nat.mod_add_mod, Nat.add_assoc] at nextTick
      refine ⟨notDue ?_, nextTick⟩
      rw [nextTick]
      exact early (n + 1) (Nat.succ_pos n) (Nat.le_refl _)

theorem TicksReturn.exists_elapsed (returns : TicksReturn allowed t ticks start)
    (bounded : n ≤ ticks) : ∃ machine, Elapsed allowed t start n machine := by
  induction n with
  | zero => exact ⟨start, .begin⟩
  | succ n ih =>
      obtain ⟨machine, elapsed⟩ := ih (Nat.le_of_succ_le bounded)
      obtain ⟨after, taken⟩ := returns n machine elapsed bounded
      exact ⟨after, elapsed.tick taken⟩

/-! ### The length of the wait -/

theorem LastsExactly.early (lasts : LastsExactly allowed t ticks start)
    (dozes : Dozes start t wakeable deadline) (range : start.kernel.tickCount < uint32Size)
    (returns : TicksReturn allowed t ticks start) (bounded : n < ticks) {k : Nat}
    (positive : 0 < k) (within : k ≤ n) :
    ¬ (wakeable ∧ Due deadline ((start.kernel.tickCount + k) % uint32Size)) := by
  induction n generalizing k with
  | zero => omega
  | succ n ih =>
      intro due
      have before : ∀ j, 0 < j → j ≤ n →
          ¬ (wakeable ∧ Due deadline ((start.kernel.tickCount + j) % uint32Size)) :=
        fun j isPositive below => ih (by omega) isPositive below
      rcases Nat.lt_or_ge k (n + 1) with sooner | last
      · exact before k positive (by omega) due
      · obtain rfl : k = n + 1 := by omega
        obtain ⟨machine, elapsed⟩ := returns.exists_elapsed (show n ≤ ticks by omega)
        obtain ⟨sleeping, _⟩ := elapsed.dozes dozes range before
        obtain ⟨_, after, taken, tickAfter, state⟩ := lasts n machine elapsed (by omega)
        obtain ⟨_, ready, _⟩ := sleeping.tick taken
        rw [tickAfter, Nat.add_assoc] at ready
        rw [if_neg (by omega), ready due] at state
        cases state

/-- The wait has the right length if the last tick is the first to find the task
due, and only then. -/
theorem lastsExactly_iff_due (dozes : Dozes start t wakeable deadline)
    (range : start.kernel.tickCount < uint32Size) (positive : 0 < ticks)
    (returns : TicksReturn allowed t ticks start) :
    LastsExactly allowed t ticks start ↔
      (∀ k, 0 < k → k < ticks →
        ¬ (wakeable ∧ Due deadline ((start.kernel.tickCount + k) % uint32Size))) ∧
      wakeable ∧ Due deadline ((start.kernel.tickCount + ticks) % uint32Size) := by
  constructor
  · intro lasts
    have early : ∀ k, 0 < k → k < ticks →
        ¬ (wakeable ∧ Due deadline ((start.kernel.tickCount + k) % uint32Size)) :=
      fun k isPositive bounded => lasts.early dozes range returns bounded isPositive (Nat.le_refl k)
    refine ⟨early, ?_⟩
    by_contra notDue
    obtain ⟨less, rfl⟩ : ∃ less, ticks = less + 1 := ⟨ticks - 1, by omega⟩
    obtain ⟨machine, elapsed⟩ := returns.exists_elapsed (Nat.le_succ less)
    obtain ⟨sleeping, _⟩ := elapsed.dozes dozes range fun k isPositive within =>
      early k isPositive (by omega)
    obtain ⟨_, after, taken, tickAfter, state⟩ := lasts less machine elapsed (by omega)
    obtain ⟨_, _, sleeps⟩ := sleeping.tick taken
    rw [tickAfter, Nat.add_assoc] at sleeps
    rw [if_pos rfl, (sleeps notDue).blocked] at state
    cases state
  · rintro ⟨early, due⟩ n machine elapsed bounded
    obtain ⟨sleeping, tickIs⟩ := elapsed.dozes dozes range fun k isPositive within =>
      early k isPositive (by omega)
    obtain ⟨after, taken⟩ := returns n machine elapsed bounded
    obtain ⟨nextTick, ready, sleeps⟩ := sleeping.tick taken
    rw [tickIs, Nat.mod_add_mod] at nextTick
    refine ⟨sleeping.blocked, after, taken, nextTick, ?_⟩
    rw [nextTick, Nat.add_assoc] at ready sleeps
    by_cases isLast : n + 1 = ticks
    · rw [if_pos isLast]
      rw [isLast] at ready
      exact ready due
    · rw [if_neg isLast]
      exact (sleeps (early (n + 1) (Nat.succ_pos n) (by omega))).blocked

/-- A sum that wraps is a wake time in the past, unless it wraps at once; the
largest value is no wake time at all. -/
theorem due_iff {now : Nat} (range : now < uint32Size) (positive : 0 < ticks)
    (bounded : ticks < uint32Size) :
    ((∀ k, 0 < k → k < ticks →
        ¬ (wakeable ∧ Due ((now + ticks) % uint32Size) ((now + k) % uint32Size))) ∧
      wakeable ∧ Due ((now + ticks) % uint32Size) ((now + ticks) % uint32Size)) ↔
      wakeable ∧ (now + ticks < uint32Max ∨ now = uint32Max) := by
  unfold Due
  unfold uint32Size at *
  unfold uint32Max
  constructor
  · rintro ⟨early, isWakeable, due⟩
    refine ⟨isWakeable, ?_⟩
    by_cases one : ticks = 1
    · omega
    · have first := not_and.mp (early 1 (by omega) (by omega)) isWakeable
      omega
  · rintro ⟨isWakeable, fits⟩
    refine ⟨?_, isWakeable, ?_⟩
    · rintro k isPositive within ⟨_, isDue⟩
      omega
    · omega

theorem Call.reason_of_timed (timed : 0 < call.timeoutTicks) : call.reason ≠ .none := by
  cases call with
  | unlock m => exact absurd timed (Nat.lt_irrefl 0)
  | post sem => exact absurd timed (Nat.lt_irrefl 0)
  | _ => simp [Call.reason]

theorem dozes_of_block (idle : IdleInUser machine) (place : machine.pc self = .armed call)
    (timed : 0 < call.timeoutTicks) (blocks : machine.advance self = some after) :
    Dozes after self (Wakeable machine.kernel.toCore self)
        ((machine.kernel.tickCount + call.timeoutTicks) % uint32Size) ∧
      after.kernel.tickCount = machine.kernel.tickCount := by
  have notIdle : some self ≠ machine.kernel.idleTcb := by
    intro isIdle
    rw [idle self isIdle] at place
    cases place
  rcases advance_cases blocks with ⟨_, _, _, elsewhere, _⟩ | ⟨_, elsewhere, _⟩ |
    ⟨other, kernel, isPlace, region, rfl⟩ | ⟨_, elsewhere, _⟩
  · rw [place] at elsewhere
    cases elsewhere
  · rw [place] at elsewhere
    cases elsewhere
  · rw [place] at isPlace
    cases isPlace
    have core := (blockRegion_onlyRings region).core
    refine ⟨⟨⟨call, Function.update_self _ _ _⟩, ?_, ?_, ?_, ?_⟩, ?_⟩
    · change some self ≠ kernel.idleTcb
      rw [core]
      exact notIdle
    · change kernel.state self = .blocked
      rw [core]
      exact Function.update_self _ _ _
    · change Wakeable kernel.toCore self ↔ _
      rw [core]
      exact Iff.rfl
    · change kernel.wakeTime self = _
      rw [core]
      simp only [schedulerMarkReschedule, blockState, Function.update_self, wakeTimeFor,
        rtosGetTick, if_neg (Nat.ne_of_gt timed)]
    · change kernel.tickCount = _
      rw [core]
      rfl
  · rw [place] at elsewhere
    cases elsewhere

theorem Elapsed.machineCoherent (holds : MachineCoherent start)
    (elapsed : Elapsed StepSafe t start n machine) : MachineCoherent machine := by
  induction elapsed with
  | begin => exact holds
  | other before permitted notTick notDeleted taken asleep ih =>
      exact regionStep_keeps ih permitted taken
  | @tick n middle final before taken ih =>
      have safe : StepSafe middle .sysTick := trivial
      exact regionStep_keeps ih safe taken

theorem MachineCoherent.ticksReturn (holds : MachineCoherent start) (t : Addr) (ticks : Nat) :
    TicksReturn StepSafe t ticks start := by
  intro n machine elapsed _
  obtain ⟨ticked, returned, _⟩ := sysTickHandler_keeps (elapsed.machineCoherent holds).coherent
  exact ⟨{ machine with kernel := ticked }, by simp only [regionStep, returned, Option.map_some]⟩

/-- In every run and whatever the reason of the block, with any steps between the
ticks that do not wake the task: a timed wait that begins at tick `c` with timeout
`T` has the right length if and only if the task is registered with its block
reason in place, and `c + T` is below `UINT32_MAX` or `c` is `UINT32_MAX`.  Where
no wakeup falls between the regions of a call, the reason is in place and the
ticks return. -/
theorem lastsExactly_iff_of_reachable
    (reached : Reachable PoweredUp regionStep (fun _ _ => True) machine)
    (isCurrent : machine.kernel.currentTcb = some self) (place : machine.pc self = .armed call)
    (range : machine.kernel.tickCount < uint32Size) (positive : 0 < call.timeoutTicks)
    (bounded : call.timeoutTicks < uint32Size) (blocks : machine.advance self = some after) :
    (∀ allowed, TicksReturn allowed self call.timeoutTicks after →
      (LastsExactly allowed self call.timeoutTicks after ↔
        Wakeable machine.kernel.toCore self ∧
          (machine.kernel.tickCount + call.timeoutTicks < uint32Max ∨
            machine.kernel.tickCount = uint32Max))) ∧
    (Reachable PoweredUp regionStep StepSafe machine →
      Wakeable machine.kernel.toCore self ∧
        TicksReturn StepSafe self call.timeoutTicks after) := by
  refine ⟨fun allowed returns => ?_, fun safely => ?_⟩
  · obtain ⟨dozes, tickIs⟩ := dozes_of_block (Reachable.idleInUser reached) place positive blocks
    rw [← tickIs] at range dozes ⊢
    rw [lastsExactly_iff_due dozes range positive returns]
    exact due_iff range positive bounded
  · have coherent := Reachable.machineCoherent (fun _ _ safe => safe) safely
    have live := coherent.coherent.registry.current self isCurrent
    refine ⟨⟨live, ?_⟩, ?_⟩
    · rw [((coherent.places self live).armed call place).1]
      exact Call.reason_of_timed positive
    · have safe : StepSafe machine .advance := by
        intro other isOther
        rw [isCurrent] at isOther
        cases isOther
        rw [place]
        trivial
      have taken : regionStep machine .advance = some after := by
        simp only [regionStep, isCurrent, Option.bind_some, blocks]
      exact (regionStep_keeps coherent safe taken).ticksReturn self call.timeoutTicks

def aboutToDelay (ticks : Nat) : List RegionAction :=
  [.create (some 0) 100 256 (some 1) (some 0), .sysTick, .pendSV, .call (.delay ticks), .advance,
    .advance]

def Pc.armedDelay (ticks : Nat) : Pc → Bool
  | .armed (.delay duration) => decide (duration = ticks)
  | _ => false

theorem Pc.armedDelay_eq {place : Pc} (isArmed : place.armedDelay ticks = true) :
    place = .armed (.delay ticks) := by
  unfold Pc.armedDelay at isArmed
  split at isArmed
  · rw [of_decide_eq_true isArmed]
  · cases isArmed

theorem lastsExactly_five_ticks :
    ∃ machine after, Reachable PoweredUp regionStep StepSafe machine ∧
      machine.kernel.tickCount = 1 ∧ machine.pc 1 = .armed (.delay 5) ∧
      machine.advance 1 = some after ∧ LastsExactly StepSafe 1 5 after := by
  obtain ⟨final, reached, found⟩ :=
    @exists_reachable_of_run Machine RegionAction PoweredUp regionStep StepSafe stepSafeCheck
      (fun s => decide (s.kernel.currentTcb = some 1) && (s.pc 1).armedDelay 5 &&
        decide (s.kernel.tickCount = 1) && (s.advance 1).isSome)
      stepSafe_of_check (aboutToDelay 5) poweredMachine poweredUp_poweredMachine
      (by decide +kernel)
  simp only [Bool.and_eq_true, decide_eq_true_eq] at found
  obtain ⟨⟨⟨isCurrent, isArmed⟩, tickIs⟩, returns⟩ := found
  obtain ⟨after, blocks⟩ := Option.isSome_iff_exists.mp returns
  have place := Pc.armedDelay_eq isArmed
  have range : final.kernel.tickCount < uint32Size := by
    rw [tickIs]
    decide
  obtain ⟨length, safely⟩ := lastsExactly_iff_of_reachable (reached.mono fun _ _ _ => trivial)
    isCurrent place range (by decide) (by decide) blocks
  obtain ⟨wakeable, ticksReturn⟩ := safely reached
  refine ⟨final, after, reached, tickIs, place, blocks, (length StepSafe ticksReturn).mpr ?_⟩
  refine ⟨wakeable, Or.inl ?_⟩
  rw [tickIs]
  decide

/-- A delay of `2 ^ 32 - 1` ticks that begins at tick 1 ends with the next tick. -/
theorem lastsExactly_fails :
    ∃ machine after, Reachable PoweredUp regionStep StepSafe machine ∧
      machine.kernel.currentTcb = some 1 ∧ machine.kernel.tickCount = 1 ∧
      machine.pc 1 = .armed (.delay 4294967295) ∧ machine.advance 1 = some after ∧
      ∀ allowed, ¬ LastsExactly allowed 1 4294967295 after := by
  obtain ⟨final, reached, found⟩ :=
    @exists_reachable_of_run Machine RegionAction PoweredUp regionStep StepSafe stepSafeCheck
      (fun s => decide (s.kernel.currentTcb = some 1) && (s.pc 1).armedDelay 4294967295 &&
        decide (s.kernel.tickCount = 1) &&
        (s.advance 1).any fun blocked => (regionStep blocked .sysTick).any
          fun ticked : Machine => decide (ticked.kernel.state 1 = TaskState.ready))
      stepSafe_of_check (aboutToDelay 4294967295) poweredMachine poweredUp_poweredMachine
      (by decide +kernel)
  simp only [Bool.and_eq_true, decide_eq_true_eq] at found
  obtain ⟨⟨⟨isCurrent, isArmed⟩, tickIs⟩, released⟩ := found
  obtain ⟨after, blocks, atOnce⟩ := (Option.any_eq_true _ _).mp released
  refine ⟨final, after, reached, isCurrent, tickIs, Pc.armedDelay_eq isArmed, blocks, ?_⟩
  intro allowed lasts
  obtain ⟨_, next, taken, _, state⟩ := lasts 0 after .begin (by decide)
  rw [taken] at atOnce
  have ready : next.kernel.state 1 = .ready := of_decide_eq_true atOnce
  rw [ready, if_neg (by decide)] at state
  cases state

end MicrokernelRtos
