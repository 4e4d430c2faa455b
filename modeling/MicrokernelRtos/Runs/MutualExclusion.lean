/-
Mutual exclusion, over all interleavings of the regions.

Nothing is asked of the lists: the argument is about the owner field alone and
survives a scheduler that picks any task.  Ownership changes in two places, the
lock that finds the mutex free and the unlock of the owner, and the second one
passes it on only to a task that has not returned from its lock yet.
-/

import MicrokernelRtos.Coherence.Mutexes
import MicrokernelRtos.Runs.Regions

namespace MicrokernelRtos

open Transition

variable {kernel result : Kernel} {machine after : Machine} {action : RegionAction}
variable {self t : Addr} {call : Call} {m : Nat}

theorem background_leavesMutexes (background : Background kernel action result) :
    LeavesMutexes kernel result := by
  cases background with
  | refused action => exact ⟨rfl, fun _ => id⟩
  | tick ticked =>
      obtain ⟨woken, counter, wake, rfl⟩ := sysTickHandler_cases ticked
      refine ⟨?_, fun m => wakeLoop_headsShrink wake (.mutex m)⟩
      have fields := (wakeLoop_wakes wake).fields
      change woken.toCore.mutex = _
      rw [fields]
      rfl
  | @select sel _ selected =>
      have frame := schedulerGetNext_onlyRings selected
      obtain ⟨state, counter, fields⟩ := select_core kernel sel
      have heads : (dispatch (preemptCurrent kernel) sel).waitHead = kernel.waitHead :=
        congrArg Links.waitHead (preemptCurrent_links kernel).1
      exact ⟨by rw [frame.core, fields], fun m => by rw [frame.waitHead, heads]; exact id⟩
  | dispatch sel live awake =>
      obtain ⟨state, counter, fields⟩ := select_core kernel sel
      have heads : (dispatch (preemptCurrent kernel) sel).waitHead = kernel.waitHead :=
        congrArg Links.waitHead (preemptCurrent_links kernel).1
      exact ⟨by rw [fields], fun m => by rw [heads]; exact id⟩

/-! ### Inside -/

/-- By the log, newest first: the last lock of the mutex by the task returned
`RTOS_OK`, and no unlock of it by the task has succeeded since. -/
def Inside (m : Nat) (t : Addr) : List Event → Prop
  | [] => False
  | event :: earlier =>
      if event.task = t then
        match event.call with
        | .lock target _ => if target = m then event.status = .ok else Inside m t earlier
        | .unlock target =>
            if target = m ∧ event.status = .ok then False else Inside m t earlier
        | _ => Inside m t earlier
      else Inside m t earlier

theorem inside_cons_other {event : Event} {log : List Event} (different : event.task ≠ t) :
    Inside m t (event :: log) ↔ Inside m t log := by
  rw [Inside, if_neg different]

theorem inside_cons_unrelated {event : Event} {log : List Event}
    (notLock : ∀ timeoutTicks, event.call ≠ .lock m timeoutTicks)
    (notUnlock : event.call = .unlock m → event.status ≠ .ok) :
    Inside m t (event :: log) ↔ Inside m t log := by
  rw [Inside]
  split
  · split
    · rename_i target timeoutTicks isLock
      rw [if_neg]
      rintro rfl
      exact notLock timeoutTicks isLock
    · rename_i target isUnlock
      rw [if_neg]
      rintro ⟨rfl, isOk⟩
      exact notUnlock isUnlock isOk
    · rfl
  · rfl

/-- Owners are inside or on their way in or out. -/
structure Exclusive (machine : Machine) : Prop where
  inside : ∀ m t, Inside m t machine.log → (machine.kernel.mutex m).owner = some t
  locked : ∀ m, (machine.kernel.mutex m).locked = true ↔ (machine.kernel.mutex m).owner ≠ none
  waited : ∀ m, machine.kernel.waitHead (.mutex m) ≠ none →
    (machine.kernel.mutex m).locked = true
  leaving : ∀ m t, machine.pc t = .entering (.unlock m) →
    (machine.kernel.mutex m).owner = some t

theorem Exclusive.of_mutex (holds : Exclusive machine)
    (mutex : after.kernel.mutex = machine.kernel.mutex)
    (log : ∀ m t, Inside m t after.log → (machine.kernel.mutex m).owner = some t)
    (heads : ∀ m, after.kernel.waitHead (.mutex m) ≠ none →
      (machine.kernel.mutex m).locked = true)
    (pc : ∀ m t, after.pc t = .entering (.unlock m) →
      (machine.kernel.mutex m).owner = some t) : Exclusive after := by
  constructor
  · intro m t inside
    rw [mutex]
    exact log m t inside
  · intro m
    rw [mutex]
    exact holds.locked m
  · intro m someone
    rw [mutex]
    exact heads m someone
  · intro m t place
    rw [mutex]
    exact pc m t place

theorem Exclusive.of_leaves (holds : Exclusive machine)
    (leaves : LeavesMutexes machine.kernel after.kernel)
    (log : ∀ m t, Inside m t after.log → Inside m t machine.log)
    (pc : ∀ m t, after.pc t = .entering (.unlock m) →
      (machine.kernel.mutex m).owner = some t) : Exclusive after :=
  holds.of_mutex leaves.mutex (fun m t inside => holds.inside m t (log m t inside))
    (fun m someone => holds.waited m (leaves.heads m someone)) pc

theorem Exclusive.leaving_update (holds : Exclusive machine) {place : Pc}
    (fits : ∀ m, place = .entering (.unlock m) → (machine.kernel.mutex m).owner = some self)
    (m : Nat) (t : Addr)
    (there : Function.update machine.pc self place t = .entering (.unlock m)) :
    (machine.kernel.mutex m).owner = some t := by
  by_cases same : t = self
  · subst t
    rw [Function.update_self] at there
    exact fits m there
  · rw [Function.update_of_ne same] at there
    exact holds.leaving m t there

theorem Exclusive.of_create (holds : Exclusive machine) {tcb priority : Nat} {added : Kernel}
    (addition : schedulerAddTask (freshTask machine.kernel tcb priority (prioBucket priority))
      (some tcb) = some (.ok, added)) :
    Exclusive (machine.move tcb .user
      { added with taskRegistry := added.taskRegistry ++ [tcb] }) := by
  have frame := schedulerAddTask_onlyRings (Function.update_self _ _ _) addition
  refine holds.of_leaves ⟨?_, fun m => ?_⟩ (fun _ _ => id)
    (holds.leaving_update fun m isUnlock => by cases isUnlock)
  · change added.mutex = _
    rw [frame.core]
    rfl
  · change added.waitHead (.mutex m) ≠ none → _
    rw [frame.waitHead]
    exact id

theorem Exclusive.of_enter (holds : Exclusive machine) : Exclusive (machine.enter self call) := by
  unfold Machine.enter
  split
  · rename_i status refused
    refine holds.of_leaves ⟨rfl, fun _ => id⟩ ?_
      (holds.leaving_update fun m isUnlock => by cases isUnlock)
    intro m t inside
    refine (inside_cons_unrelated ?_ ?_).mp inside
    · rintro timeoutTicks isLock
      change call = _ at isLock
      rw [isLock] at refused
      cases refused
    · intro isUnlock isOk
      change call = _ at isUnlock
      change status = _ at isOk
      rw [isUnlock, isOk] at refused
      simp only [callRefused] at refused
      split at refused <;> cases refused
  · rename_i accepted
    refine holds.of_leaves ⟨rfl, fun _ => id⟩ (fun _ _ => id) (holds.leaving_update ?_)
    rintro m isUnlock
    cases isUnlock
    by_contra foreign
    simp [callRefused, ownsMutex, foreign] at accepted

theorem Exclusive.of_one (holds : Exclusive machine)
    (elsewhere : ∀ target, target ≠ m →
      after.kernel.mutex target = machine.kernel.mutex target)
    (log : ∀ target t, target ≠ m → Inside target t after.log → Inside target t machine.log)
    (heads : ∀ target, target ≠ m → after.kernel.waitHead (.mutex target) ≠ none →
      machine.kernel.waitHead (.mutex target) ≠ none)
    (pc : ∀ target t, after.pc t = .entering (.unlock target) →
      target ≠ m ∧ (machine.kernel.mutex target).owner = some t)
    (inside : ∀ t, Inside m t after.log → (after.kernel.mutex m).owner = some t)
    (locked : (after.kernel.mutex m).locked = true ↔ (after.kernel.mutex m).owner ≠ none)
    (waited : after.kernel.waitHead (.mutex m) ≠ none →
      (after.kernel.mutex m).locked = true) : Exclusive after := by
  constructor
  · intro target t isInside
    by_cases isTarget : target = m
    · subst target
      exact inside t isInside
    · rw [elsewhere target isTarget]
      exact holds.inside target t (log target t isTarget isInside)
  · intro target
    by_cases isTarget : target = m
    · subst target
      exact locked
    · rw [elsewhere target isTarget]
      exact holds.locked target
  · intro target someone
    by_cases isTarget : target = m
    · subst target
      exact waited someone
    · rw [elsewhere target isTarget]
      exact holds.waited target (heads target isTarget someone)
  · intro target t there
    obtain ⟨isTarget, owned⟩ := pc target t there
    rw [elsewhere target isTarget]
    exact owned

theorem Exclusive.of_taken (holds : Exclusive machine) {timeoutTicks : Nat}
    (free : (machine.kernel.mutex m).locked = false)
    (mutexIs : kernel.mutex = Function.update machine.kernel.mutex m
      { locked := true, owner := some self })
    (heads : kernel.waitHead = machine.kernel.waitHead) :
    Exclusive (machine.leave self (.lock m timeoutTicks) (.returns .ok []) kernel) := by
  have nobody : (machine.kernel.mutex m).owner = none := by
    by_contra owned
    rw [(holds.locked m).mpr owned] at free
    cases free
  have taken : kernel.mutex m = { locked := true, owner := some self } := by
    rw [mutexIs, Function.update_self]
  apply holds.of_one
  · intro target isTarget
    change kernel.mutex target = _
    rw [mutexIs, Function.update_of_ne isTarget]
  · intro target t isTarget inside
    refine (inside_cons_unrelated ?_ ?_).mp inside
    · rintro ticks isLock
      cases isLock
      exact isTarget rfl
    · intro isUnlock
      cases isUnlock
  · intro target _ someone
    change kernel.waitHead (.mutex target) ≠ none at someone
    rw [heads] at someone
    exact someone
  · intro target t place
    have owned := holds.leaving_update (fun _ isUnlock => by cases isUnlock) target t place
    refine ⟨?_, owned⟩
    rintro rfl
    rw [nobody] at owned
    cases owned
  · intro t inside
    change (kernel.mutex m).owner = some t
    rw [taken]
    by_contra other
    have different : self ≠ t := fun same => other (by rw [same])
    have owned := holds.inside m t ((inside_cons_other different).mp inside)
    rw [nobody] at owned
    cases owned
  · change (kernel.mutex m).locked = true ↔ (kernel.mutex m).owner ≠ none
    rw [taken]
    simp
  · intro _
    change (kernel.mutex m).locked = true
    rw [taken]

theorem Exclusive.of_lock (holds : Exclusive machine) {outcome : Outcome} {timeoutTicks : Nat}
    (region : callRegion machine.kernel self (.lock m timeoutTicks) = some (outcome, kernel)) :
    Exclusive (machine.leave self (.lock m timeoutTicks) outcome kernel) := by
  rcases lockRegion_mutexes region with ⟨rfl, _, mine, leaves⟩ | ⟨rfl, free, mutexIs, heads⟩ |
    ⟨rfl, locked, foreign, mutexIs, heads⟩
  · refine holds.of_mutex leaves.mutex ?_
      (fun target someone => holds.waited target (leaves.heads target someone))
      (holds.leaving_update fun _ isUnlock => by cases isUnlock)
    intro target t inside
    by_cases same : t = self ∧ target = m
    · rw [same.1, same.2]
      exact mine
    · refine holds.inside target t ?_
      by_cases isSelf : t = self
      · refine (inside_cons_unrelated ?_ ?_).mp inside
        · rintro ticks isLock
          cases isLock
          exact same ⟨isSelf, rfl⟩
        · intro isUnlock
          cases isUnlock
      · exact (inside_cons_other (Ne.symm isSelf)).mp inside
  · exact holds.of_taken free mutexIs heads
  · refine holds.of_mutex mutexIs holds.inside ?_
      (holds.leaving_update fun _ isUnlock => by cases isUnlock)
    intro target someone
    by_cases isTarget : target = m
    · rw [isTarget]
      exact locked
    · change kernel.waitHead (.mutex target) ≠ none at someone
      rw [heads target isTarget] at someone
      exact holds.waited target someone

theorem Exclusive.of_unlock (holds : Exclusive machine) {outcome : Outcome}
    (place : machine.pc self = .entering (.unlock m))
    (region : callRegion machine.kernel self (.unlock m) = some (outcome, kernel)) :
    Exclusive (machine.leave self (.unlock m) outcome kernel) := by
  obtain ⟨rfl, heads, ending⟩ := unlockRegion_mutexes region
  have mine := holds.leaving m self place
  apply holds.of_one
  · intro target isTarget
    change kernel.mutex target = _
    rcases ending with ⟨mutexIs, _⟩ | ⟨heir, mutexIs⟩
    · rw [mutexIs, Function.update_of_ne isTarget]
    · rw [mutexIs, Function.update_of_ne isTarget]
  · intro target t isTarget inside
    refine (inside_cons_unrelated ?_ ?_).mp inside
    · rintro ticks isLock
      cases isLock
    · intro isUnlock
      cases isUnlock
      exact absurd rfl isTarget
  · exact heads
  · intro target t there
    have different : t ≠ self := by
      rintro rfl
      change Function.update machine.pc t .user t = _ at there
      rw [Function.update_self] at there
      cases there
    change Function.update machine.pc self .user t = _ at there
    rw [Function.update_of_ne different] at there
    have owned := holds.leaving target t there
    refine ⟨?_, owned⟩
    rintro rfl
    rw [mine] at owned
    exact different (Option.some.inj owned).symm
  · intro t inside
    change Inside m t
      ({ task := self, call := .unlock m, status := .ok, out := [] } :: machine.log) at inside
    by_cases isSelf : self = t
    · simp [Inside, isSelf] at inside
    · have owned := holds.inside m t ((inside_cons_other isSelf).mp inside)
      rw [mine] at owned
      exact absurd (Option.some.inj owned) isSelf
  · change (kernel.mutex m).locked = true ↔ (kernel.mutex m).owner ≠ none
    rcases ending with ⟨mutexIs, _⟩ | ⟨heir, mutexIs⟩
    · rw [mutexIs, Function.update_self]
      simp
    · rw [mutexIs, Function.update_self]
      simp
  · intro someone
    change (kernel.mutex m).locked = true
    rcases ending with ⟨_, empty⟩ | ⟨heir, mutexIs⟩
    · exact absurd empty someone
    · rw [mutexIs, Function.update_self]

theorem Exclusive.of_region (holds : Exclusive machine) {outcome : Outcome}
    (notLock : ∀ m timeoutTicks, call ≠ .lock m timeoutTicks) (notUnlock : ∀ m, call ≠ .unlock m)
    (region : callRegion machine.kernel self call = some (outcome, kernel)) :
    Exclusive (machine.leave self call outcome kernel) := by
  have leaves := callRegion_leavesMutexes region notLock notUnlock
  cases outcome with
  | returns status out =>
      refine holds.of_leaves leaves ?_ (holds.leaving_update fun m isUnlock => by cases isUnlock)
      intro m t inside
      refine (inside_cons_unrelated ?_ ?_).mp inside
      · exact fun ticks => notLock m ticks
      · exact fun isUnlock => absurd isUnlock (notUnlock m)
  | blocks =>
      exact holds.of_leaves leaves (fun _ _ => id)
        (holds.leaving_update fun m isUnlock => by cases isUnlock)

theorem Exclusive.of_wakeUp (holds : Exclusive machine)
    (loops : ∀ m, call ≠ .unlock m) : Exclusive (machine.wakeUp self call) := by
  have unmoved : LeavesMutexes machine.kernel machine.kernel := ⟨rfl, fun _ => id⟩
  rcases wakeUp_cases machine self call with ⟨ticks, status, rfl, same⟩ | ⟨_, same⟩ | ⟨_, same⟩
  · rw [same]
    refine holds.of_leaves unmoved ?_ (holds.leaving_update fun m isUnlock => by cases isUnlock)
    intro m t inside
    refine (inside_cons_unrelated ?_ ?_).mp inside
    · intro _ isLock
      cases isLock
    · intro isUnlock
      cases isUnlock
  · rw [same]
    refine holds.of_leaves unmoved ?_ (holds.leaving_update fun m isUnlock => by cases isUnlock)
    intro m t inside
    by_cases isSelf : self = t
    · by_cases isLock : ∃ ticks, call = .lock m ticks
      · obtain ⟨ticks, rfl⟩ := isLock
        simp [Machine.finish, Inside, isSelf] at inside
      · refine (inside_cons_unrelated ?_ ?_).mp inside
        · exact fun ticks isCall => isLock ⟨ticks, isCall⟩
        · exact fun isUnlock => absurd isUnlock (loops m)
    · exact (inside_cons_other isSelf).mp inside
  · rw [same]
    refine holds.of_leaves unmoved (fun _ _ => id) (holds.leaving_update ?_)
    intro m isUnlock
    cases isUnlock
    exact absurd rfl (loops m)

def Pc.waitsIn : Pc → Option Call
  | .enqueued call => some call
  | .armed call => some call
  | .blocked call => some call
  | _ => none

def UnlocksReturn (machine : Machine) : Prop :=
  ∀ t m, (machine.pc t).waitsIn ≠ some (.unlock m)

theorem UnlocksReturn.update (holds : UnlocksReturn machine) {place : Pc} {kernel : Kernel}
    {log : List Event} (fits : ∀ m, place.waitsIn ≠ some (.unlock m)) :
    UnlocksReturn
      { kernel := kernel, pc := Function.update machine.pc self place, log := log } := by
  intro t m
  by_cases same : t = self
  · subst t
    simp only [Function.update_self]
    exact fits m
  · simp only [Function.update_of_ne same]
    exact holds t m

theorem unlocksReturn_step (holds : UnlocksReturn machine)
    (taken : regionStep machine action = some after) : UnlocksReturn after := by
  rcases regionStep_cases taken with ⟨kernel, background, rfl⟩ |
    ⟨tcb, priority, added, _, fresh, bounded, addition, rfl⟩ |
    ⟨tcb, kernel, rfl, _, _, deletion, rfl⟩ | ⟨self, call, isCurrent, user, rfl⟩ |
    ⟨self, rfl, isCurrent, moves⟩
  · exact holds
  · exact holds.update fun m waits => by cases waits
  · exact holds.update fun m waits => by cases waits
  · unfold Machine.enter
    split
    · exact holds.update fun m waits => by cases waits
    · exact holds.update fun m waits => by cases waits
  · rcases advance_cases moves with ⟨call, outcome, kernel, place, region, rfl⟩ |
      ⟨call, place, rfl⟩ | ⟨call, kernel, place, region, rfl⟩ | ⟨call, place, awake, rfl⟩
    · cases outcome with
      | returns status out => exact holds.update fun m waits => by cases waits
      | blocks =>
          refine holds.update fun m waits => ?_
          cases waits
          cases (unlockRegion_mutexes region).1
    · refine holds.update fun m waits => holds self m ?_
      rw [place]
      exact waits
    · refine holds.update fun m waits => holds self m ?_
      rw [place]
      exact waits
    · rcases wakeUp_cases machine self call with ⟨ticks, status, _, same⟩ | ⟨_, same⟩ | ⟨_, same⟩
      all_goals
        rw [same]
        exact holds.update fun m waits => by cases waits

/-! ### Runs -/

def withoutDelete : RegionAction → Bool
  | .delete _ => false
  | _ => true

theorem exclusive_step (holds : Exclusive machine) (returns : UnlocksReturn machine)
    (kept : withoutDelete action = true) (taken : regionStep machine action = some after) :
    Exclusive after := by
  rcases regionStep_cases taken with ⟨kernel, background, rfl⟩ |
    ⟨tcb, priority, added, _, fresh, bounded, addition, rfl⟩ |
    ⟨tcb, kernel, rfl, _, _, deletion, rfl⟩ | ⟨self, call, isCurrent, user, rfl⟩ |
    ⟨self, rfl, isCurrent, moves⟩
  · exact holds.of_leaves (background_leavesMutexes background) (fun _ _ => id) holds.leaving
  · exact holds.of_create addition
  · cases kept
  · exact holds.of_enter
  · rcases advance_cases moves with ⟨call, outcome, kernel, place, region, rfl⟩ |
      ⟨call, place, rfl⟩ | ⟨call, kernel, place, region, rfl⟩ | ⟨call, place, awake, rfl⟩
    · cases call with
      | lock m timeoutTicks => exact holds.of_lock region
      | unlock m => exact holds.of_unlock place region
      | _ =>
          exact holds.of_region (fun _ _ same => by cases same) (fun _ same => by cases same) region
    · exact holds.of_leaves ⟨rfl, fun _ => id⟩ (fun _ _ => id)
        (holds.leaving_update fun m isUnlock => by cases isUnlock)
    · have frame := blockRegion_onlyRings region
      refine holds.of_leaves ⟨?_, fun m => ?_⟩ (fun _ _ => id)
        (holds.leaving_update fun m isUnlock => by cases isUnlock)
      · change kernel.mutex = _
        rw [frame.core]
        rfl
      · change kernel.waitHead (.mutex m) ≠ none → _
        rw [frame.waitHead]
        exact id
    · refine holds.of_wakeUp fun m isUnlock => returns self m ?_
      rw [place, isUnlock]
      rfl

theorem PoweredUp.exclusive (powered : PoweredUp machine) : Exclusive machine := by
  obtain ⟨start, idle, initialised, _, core, heads, _⟩ := powered.booted.spec
  have free : ∀ m, machine.kernel.mutex m = { locked := false, owner := none } := by
    intro m
    rw [core]
    exact initialised.mutex_eq m
  constructor
  · intro m t inside
    rw [powered.log] at inside
    cases inside
  · intro m
    rw [free]
    simp
  · intro m someone
    rw [heads, (initialised.waits_empty (.mutex m)).1] at someone
    exact absurd rfl someone
  · intro m t place
    rw [powered.pc] at place
    cases place

theorem PoweredUp.unlocksReturn (powered : PoweredUp machine) : UnlocksReturn machine := by
  intro t m
  rw [powered.pc]
  exact fun waits => by cases waits

/-- Mutual exclusion in every state of every run without deletions, whichever
tasks the scheduler picks. -/
theorem mutualExclusion_of_reachable
    (reached : Reachable PoweredUp regionStep (fun _ a => withoutDelete a = true) machine)
    (m : Nat) :
    (∀ t, Inside m t machine.log →
        (machine.kernel.mutex m).owner = some t ∧ (machine.kernel.mutex m).locked = true) ∧
      (∀ t u, Inside m t machine.log → Inside m u machine.log → t = u) ∧
      ((machine.kernel.mutex m).locked = true ↔ (machine.kernel.mutex m).owner ≠ none) ∧
      (machine.kernel.waitHead (.mutex m) ≠ none → (machine.kernel.mutex m).locked = true) := by
  have holds : Exclusive machine ∧ UnlocksReturn machine :=
    Transition.Reachable.invariant (fun s => Exclusive s ∧ UnlocksReturn s)
      (fun s powered => ⟨powered.exclusive, powered.unlocksReturn⟩)
      (fun s a _ both permitted taken =>
        ⟨exclusive_step both.1 both.2 permitted taken, unlocksReturn_step both.2 taken⟩) reached
  obtain ⟨exclusive, _⟩ := holds
  refine ⟨?_, ?_, exclusive.locked m, exclusive.waited m⟩
  · intro t inside
    have owned := exclusive.inside m t inside
    exact ⟨owned, (exclusive.locked m).mpr (by rw [owned]; exact Option.some_ne_none t)⟩
  · intro t u first second
    have same := (exclusive.inside m t first).symm.trans (exclusive.inside m u second)
    exact Option.some.inj same

def lockThenWait : List RegionAction :=
  [.create (some 0) 100 256 (some 1) (some 0), .create (some 0) 100 256 (some 2) (some 0),
    .dispatch 1, .call (.lock 0 0), .advance, .dispatch 2, .call (.lock 0 0), .advance]

theorem mutualExclusion_after_contention :
    ∃ machine, Reachable PoweredUp regionStep (fun _ a => withoutDelete a = true) machine ∧
      machine.kernel.waitHead (.mutex 0) = some 2 ∧
      (machine.kernel.mutex 0).locked = true := by
  obtain ⟨final, reached, found⟩ :=
    @exists_reachable_of_run Machine RegionAction PoweredUp regionStep
      (fun _ a => withoutDelete a = true) (fun _ a => withoutDelete a)
      (fun s => decide (s.kernel.waitHead (.mutex 0) = some 2))
      (fun _ _ checked => checked) lockThenWait poweredMachine poweredUp_poweredMachine
      (by decide +kernel)
  have waiting := of_decide_eq_true found
  refine ⟨final, reached, waiting, ?_⟩
  refine (mutualExclusion_of_reachable reached 0).2.2.2 ?_
  rw [waiting]
  exact Option.some_ne_none 2

end MicrokernelRtos
