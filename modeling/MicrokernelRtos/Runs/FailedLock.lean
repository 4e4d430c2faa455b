/-
What a lock that has timed out leaves behind.

A waiter is not the owner of the mutex it waits for, and the tick that gives up
its wait takes it off the list.  The one way to be handed a mutex and to miss it
is to be taken off the list between the two regions of the lock: the wake status
is written again and the wait then runs to its timeout.
-/

import MicrokernelRtos.Runs.Wakeups
import MicrokernelRtos.Runs.MutualExclusion

namespace MicrokernelRtos

open Linked Transition

variable {kernel result : Kernel} {machine after : Machine} {action : RegionAction}
variable {self t : Addr} {call : Call} {m : Nat}

/-! ### Outsiders -/

/-- The task is BLOCKED or has been woken by its timeout. -/
def Unserved (core : Core) (t : Addr) : Prop :=
  core.state t = .blocked ∨ core.blockWakeStatus t = .errTimeout

/-- A task at this place waits for the mutex, or has waited in vain. -/
def WaitsInVain (core : Core) (t : Addr) (m : Nat) : Pc → Prop
  | .enqueued (.lock target _) => target = m
  | .armed (.lock target _) => target = m
  | .blocked (.lock target _) => target = m ∧ Unserved core t
  | _ => False

def OutsidersOwnNothing (machine : Machine) : Prop :=
  ∀ t m, WaitsInVain machine.kernel.toCore t m (machine.pc t) →
    (machine.kernel.mutex m).owner ≠ some t

theorem WaitsInVain.of_unserved {before after : Core} {place : Pc}
    (vain : WaitsInVain after t m place) (earlier : Unserved after t → Unserved before t) :
    WaitsInVain before t m place := by
  unfold WaitsInVain at vain ⊢
  split at vain
  · exact vain
  · exact vain
  · exact ⟨vain.1, earlier vain.2⟩
  · exact vain.elim

theorem OutsidersOwnNothing.moved {place : Pc} {log : List Event}
    (others : ∀ t, t ≠ self → ∀ m, WaitsInVain kernel.toCore t m (machine.pc t) →
      (kernel.mutex m).owner = some t → False)
    (fits : ∀ m, WaitsInVain kernel.toCore self m place → (kernel.mutex m).owner ≠ some self) :
    OutsidersOwnNothing
      { kernel := kernel, pc := Function.update machine.pc self place, log := log } := by
  intro t m vain owns
  by_cases same : t = self
  · subst t
    simp only [Function.update_self] at vain
    exact fits m vain owns
  · simp only [Function.update_of_ne same] at vain
    exact others t same m vain owns

theorem OutsidersOwnNothing.others_of_mutex (holds : OutsidersOwnNothing machine)
    (mutex : kernel.mutex = machine.kernel.mutex)
    (earlier : Unserved kernel.toCore t → Unserved machine.kernel.toCore t) (m : Nat)
    (vain : WaitsInVain kernel.toCore t m (machine.pc t))
    (owns : (kernel.mutex m).owner = some t) : False := by
  rw [mutex] at owns
  exact holds t m (vain.of_unserved earlier) owns

theorem OutsidersOwnNothing.others_of_update (holds : OutsidersOwnNothing machine)
    {target : Nat} {value : Mutex}
    (mutex : kernel.mutex = Function.update machine.kernel.mutex target value)
    (earlier : Unserved kernel.toCore t → Unserved machine.kernel.toCore t)
    (new : value.owner = some t → ¬ WaitsInVain kernel.toCore t target (machine.pc t)) (m : Nat)
    (vain : WaitsInVain kernel.toCore t m (machine.pc t))
    (owns : (kernel.mutex m).owner = some t) : False := by
  by_cases isTarget : m = target
  · subst m
    rw [mutex, Function.update_self] at owns
    exact new owns vain
  · rw [mutex, Function.update_of_ne isTarget] at owns
    exact holds t m (vain.of_unserved earlier) owns

theorem background_unserved (coherent : MachineCoherent machine)
    (background : Background machine.kernel action kernel) (t : Addr) :
    Unserved kernel.toCore t → Unserved machine.kernel.toCore t := by
  have selected : ∀ sel, machine.kernel.state sel ≠ .blocked →
      Unserved (dispatch (preemptCurrent machine.kernel) sel).toCore t →
      Unserved machine.kernel.toCore t := by
    intro sel awake unserved
    obtain ⟨state, counter, fields⟩ := select_core machine.kernel sel
    refine unserved.imp (select_blocked_iff awake t).mp fun expired => ?_
    rw [fields] at expired
    exact expired
  cases background with
  | refused action => exact id
  | tick ticked =>
      obtain ⟨woken, wakes, core⟩ := sysTickHandler_core ticked
      intro unserved
      rw [core] at unserved
      by_cases isWoken : t ∈ machine.kernel.taskRegistry ∧
          Expires (rtosTickIncrement machine.kernel) (rtosTickIncrement machine.kernel).tickCount t
      · exact Or.inl isWoken.2.blocked
      · unfold Unserved at unserved
        rw [wakes.state t isWoken, wakes.status t isWoken] at unserved
        exact unserved
  | @select chosen _ selection =>
      obtain ⟨sel, result, returned, _, awake, _, core⟩ :=
        schedulerGetNext_keeps coherent.coherent
      rw [selection] at returned
      cases returned
      rw [core]
      exact selected chosen awake
  | dispatch sel live awake => exact selected sel awake

theorem OutsidersOwnNothing.of_background (holds : OutsidersOwnNothing machine)
    (coherent : MachineCoherent machine) (background : Background machine.kernel action kernel) :
    OutsidersOwnNothing { machine with kernel := kernel } := by
  intro t m vain
  rw [(background_leavesMutexes background).mutex]
  exact holds t m (vain.of_unserved (background_unserved coherent background t))

theorem OutsidersOwnNothing.of_create (holds : OutsidersOwnNothing machine)
    {tcb priority : Nat} {added : Kernel}
    (addition : schedulerAddTask (freshTask machine.kernel tcb priority (prioBucket priority))
      (some tcb) = some (.ok, added)) :
    OutsidersOwnNothing (machine.move tcb .user
      { added with taskRegistry := added.taskRegistry ++ [tcb] }) := by
  have core := (schedulerAddTask_onlyRings (Function.update_self _ _ _) addition).core
  refine OutsidersOwnNothing.moved (fun t different => ?_) fun m vain => vain.elim
  refine holds.others_of_mutex ?_ ?_
  · change added.mutex = _
    rw [core]
    rfl
  · unfold Unserved
    rw [core]
    simp [freshTask, different]

theorem OutsidersOwnNothing.of_delete (holds : OutsidersOwnNothing machine) {tcb : Addr}
    (deletion : taskDelete machine.kernel (some tcb) = some (.ok, kernel)) :
    OutsidersOwnNothing (machine.move tcb .user kernel) := by
  rcases taskDelete_cases deletion with
    ⟨refused, _⟩ | ⟨t, detached, removed, isTask, _, _, _, detachment, removal, rfl⟩
  · exact absurd rfl refused
  · cases isTask
    obtain ⟨reason, object, onMutex, fields, _⟩ := detachIfBlocked_core detachment
    have core := (schedulerRemoveTask_onlyRings removal).core.trans fields
    refine OutsidersOwnNothing.moved (fun t different => ?_) fun m vain => vain.elim
    refine holds.others_of_mutex ?_ ?_
    · change removed.mutex = _
      rw [core]
    · unfold Unserved
      rw [core]
      simp [different]

/-- A task that was BLOCKED and is READY now with a clean wake status has been
served. -/
theorem MachineCoherent.served (coherent : MachineCoherent machine)
    (live : t ∈ machine.kernel.taskRegistry) (blocked : machine.kernel.state t = .blocked)
    (status : kernel.blockWakeStatus = machine.kernel.blockWakeStatus)
    (ready : kernel.state t = .ready) : ¬ WaitsInVain kernel.toCore t m (machine.pc t) := by
  obtain ⟨call, place, _, _, clean⟩ := (coherent.places t live).asleep blocked
  have served : ¬ Unserved kernel.toCore t := by
    rintro (isBlocked | expired)
    · rw [ready] at isBlocked
      cases isBlocked
    · rw [status, clean] at expired
      cases expired
  rw [place]
  intro vain
  cases call with
  | lock _ _ => exact served vain.2
  | _ => exact vain.elim

theorem OutsidersOwnNothing.others_of_lock (holds : OutsidersOwnNothing machine)
    {target timeoutTicks : Nat} {outcome : Outcome}
    (earlier : Unserved kernel.toCore t → Unserved machine.kernel.toCore t) (different : t ≠ self)
    (returned : callRegion machine.kernel self (.lock target timeoutTicks) =
      some (outcome, kernel)) (m : Nat)
    (vain : WaitsInVain kernel.toCore t m (machine.pc t))
    (owns : (kernel.mutex m).owner = some t) : False := by
  rcases lockRegion_mutexes returned with
    ⟨_, _, _, leaves⟩ | ⟨_, _, mutexIs, _⟩ | ⟨_, _, _, mutexIs, _⟩
  · exact holds.others_of_mutex leaves.mutex earlier m vain owns
  · refine holds.others_of_update mutexIs earlier ?_ m vain owns
    exact fun isSelf => absurd (Option.some.inj isSelf).symm different
  · exact holds.others_of_mutex mutexIs earlier m vain owns

/-- The region of an unlock.  The heir was BLOCKED with a clean wake status, so that
it is not unserved any more. -/
theorem OutsidersOwnNothing.others_of_unlock (holds : OutsidersOwnNothing machine)
    (coherent : MachineCoherent machine) {target : Nat} {outcome : Outcome}
    (awake : machine.kernel.state self ≠ .blocked) (outside : machine.window self = none)
    (pops : PopsBlocked machine.kernel (.unlock target))
    (earlier : Unserved kernel.toCore t → Unserved machine.kernel.toCore t)
    (status : kernel.blockWakeStatus = machine.kernel.blockWakeStatus)
    (returned : callRegion machine.kernel self (.unlock target) = some (outcome, kernel)) (m : Nat)
    (vain : WaitsInVain kernel.toCore t m (machine.pc t))
    (owns : (kernel.mutex m).owner = some t) : False := by
  obtain ⟨waits, waiting⟩ := coherent.coherent.waits
  obtain ⟨unlocked, region, equal⟩ := Option.map_eq_some_iff.mp returned
  cases equal
  have heirBlocked : ∀ heir,
      firstHighest machine.kernel.priority (waits (.mutex target)) = some heir →
      machine.kernel.state heir = .blocked :=
    fun heir chosen => pops heir (waiting.firstHighest_eq chosen)
  rcases mutexUnlockRegion_waits waiting awake outside heirBlocked region with
    ⟨_, _, core⟩ | ⟨heir, chosen, _, core⟩
  · have mutexIs : kernel.mutex = Function.update machine.kernel.mutex target
        { locked := false, owner := none } := by
      rw [core]
      rfl
    exact holds.others_of_update mutexIs earlier (fun isNone => by cases isNone) m vain owns
  · have mutexIs : kernel.mutex = Function.update machine.kernel.mutex target
        { locked := true, owner := some heir } := by
      rw [core]
      rfl
    refine holds.others_of_update mutexIs earlier (fun isHeir => ?_) m vain owns
    cases isHeir
    have live := ((waiting.shape.member _ t).mp (firstHighest_spec chosen).1).1
    refine coherent.served live (heirBlocked t chosen) status ?_
    rw [core]
    exact Function.update_self _ _ _

theorem OutsidersOwnNothing.of_region (holds : OutsidersOwnNothing machine)
    (coherent : MachineCoherent machine) (isCurrent : machine.kernel.currentTcb = some self)
    (place : machine.pc self = .entering call)
    (safe : PlaceSafe machine.kernel self (machine.pc self))
    {outcome : Outcome} (returned : callRegion machine.kernel self call = some (outcome, kernel)) :
    OutsidersOwnNothing (machine.leave self call outcome kernel) := by
  have awake := (coherent.atWork isCurrent place (by simp) (by simp)).awake
  have keeps := coherent.region_keeps isCurrent place safe returned
  have outside : machine.window self = none := by
    unfold Machine.window
    rw [place]
    rfl
  rw [place] at safe
  have status : kernel.blockWakeStatus = machine.kernel.blockWakeStatus := by
    rw [(callRegion_writes returned).fields]
  have earlier : ∀ t, Unserved kernel.toCore t → Unserved machine.kernel.toCore t := by
    intro t unserved
    refine unserved.imp (keeps.quiet.unmoved t).asleep fun expired => ?_
    rw [status] at expired
    exact expired
  have others : ∀ t, t ≠ self → ∀ m, WaitsInVain kernel.toCore t m (machine.pc t) →
      (kernel.mutex m).owner = some t → False := by
    intro t different
    cases call with
    | lock target timeoutTicks => exact holds.others_of_lock (earlier t) different returned
    | unlock target =>
        exact holds.others_of_unlock coherent awake outside safe.1 (earlier t) status returned
    | _ =>
        have leaves := callRegion_leavesMutexes returned (fun _ _ same => by cases same)
          (fun _ same => by cases same)
        exact holds.others_of_mutex leaves.mutex (earlier t)
  cases outcome with
  | returns status out => exact OutsidersOwnNothing.moved others fun m vain => vain.elim
  | blocks =>
      refine OutsidersOwnNothing.moved others fun m vain => ?_
      cases call with
      | lock target timeoutTicks =>
          rcases lockRegion_mutexes returned with
            ⟨isReturn, _⟩ | ⟨isReturn, _⟩ | ⟨_, _, foreign, mutexIs, _⟩
          · cases isReturn
          · cases isReturn
          · cases vain
            rw [mutexIs]
            exact foreign
      | _ => exact vain.elim

theorem outsidersOwnNothing_step (holds : OutsidersOwnNothing machine)
    (coherent : MachineCoherent machine) (safe : StepSafe machine action)
    (taken : regionStep machine action = some after) : OutsidersOwnNothing after := by
  have same : ∀ t, Unserved machine.kernel.toCore t → Unserved machine.kernel.toCore t :=
    fun _ => id
  rcases regionStep_cases taken with ⟨kernel, background, rfl⟩ |
    ⟨tcb, priority, added, _, fresh, bounded, addition, rfl⟩ |
    ⟨tcb, kernel, rfl, _, _, deletion, rfl⟩ | ⟨self, call, isCurrent, user, rfl⟩ |
    ⟨self, rfl, isCurrent, moves⟩
  · exact holds.of_background coherent background
  · exact holds.of_create addition
  · exact holds.of_delete deletion
  · unfold Machine.enter
    split
    · exact OutsidersOwnNothing.moved (fun t _ => holds.others_of_mutex rfl (same t))
        fun m vain => vain.elim
    · exact OutsidersOwnNothing.moved (fun t _ => holds.others_of_mutex rfl (same t))
        fun m vain => vain.elim
  · rcases advance_cases moves with ⟨call, outcome, kernel, place, region, rfl⟩ |
      ⟨call, place, rfl⟩ | ⟨call, kernel, place, region, rfl⟩ | ⟨call, place, awake, rfl⟩
    · exact holds.of_region coherent isCurrent place (safe self isCurrent) region
    · refine OutsidersOwnNothing.moved (fun t different => holds.others_of_mutex rfl ?_)
        fun m vain => ?_
      · simp [Unserved, blockFields, different]
      · refine holds self m ?_
        rw [place]
        cases call with
        | lock target timeoutTicks => exact vain
        | _ => exact vain.elim
    · have core := (blockRegion_onlyRings region).core
      refine OutsidersOwnNothing.moved (fun t different => holds.others_of_mutex ?_ ?_)
        fun m vain => ?_
      · rw [core]
        rfl
      · rw [core]
        simp [Unserved, schedulerMarkReschedule, blockState, different]
      · rw [core]
        refine holds self m ?_
        rw [place]
        cases call with
        | lock target timeoutTicks => exact vain.1
        | _ => exact vain.elim
    · rcases wakeUp_cases machine self call with
        ⟨ticks, status, _, equal⟩ | ⟨_, equal⟩ | ⟨_, equal⟩
      all_goals
        rw [equal]
        exact OutsidersOwnNothing.moved (fun t _ => holds.others_of_mutex rfl (same t))
          fun m vain => vain.elim

theorem PoweredUp.outsidersOwnNothing (powered : PoweredUp machine) :
    OutsidersOwnNothing machine := by
  intro t m vain
  rw [powered.pc] at vain
  exact vain.elim

/-! ### Locks that time out -/

/-- When a step returns a timeout from a lock to a task, the task does not own
the mutex and is not on its wait list. -/
def FailedLockHoldsNothing (machine : Machine) : Prop :=
  ∀ action after t m ticks out, regionStep machine action = some after →
    after.log = { task := t, call := .lock m ticks, status := .errTimeout, out := out } ::
      machine.log →
    (after.kernel.mutex m).owner ≠ some t ∧
      ¬ Reaches after.kernel.mutexWaitNext (after.kernel.waitHead (.mutex m)) t

/-- Only the lines behind the wait loop return a timeout from a lock. -/
theorem lock_timeout_step {ticks : Nat} {out : List UInt8}
    (taken : regionStep machine action = some after)
    (logged : after.log = { task := t, call := .lock m ticks, status := .errTimeout, out := out } ::
      machine.log) :
    after.kernel = machine.kernel ∧ machine.pc t = .blocked (.lock m ticks) ∧
      machine.kernel.state t ≠ .blocked ∧ machine.kernel.blockWakeStatus t = .errTimeout := by
  have grows : ∀ {log : List Event} {event : Event}, log ≠ event :: log := fun equal =>
    absurd (congrArg List.length equal) (by simp)
  rcases regionStep_cases taken with ⟨kernel, background, rfl⟩ |
    ⟨tcb, priority, added, _, fresh, bounded, addition, rfl⟩ |
    ⟨tcb, kernel, rfl, _, _, deletion, rfl⟩ | ⟨self, call, isCurrent, user, rfl⟩ |
    ⟨self, rfl, isCurrent, moves⟩
  · exact absurd logged grows
  · exact absurd logged grows
  · exact absurd logged grows
  · unfold Machine.enter at logged
    split at logged
    · rename_i status refused
      injection logged with event _
      injection event with _ isCall _ _
      rw [isCall] at refused
      cases refused
    · exact absurd logged grows
  · rcases advance_cases moves with ⟨call, outcome, kernel, place, region, rfl⟩ |
      ⟨call, place, rfl⟩ | ⟨call, kernel, place, region, rfl⟩ | ⟨call, place, awake, rfl⟩
    · cases outcome with
      | returns status text =>
          injection logged with event _
          injection event with _ isCall isStatus _
          rw [isCall] at region
          rcases lockRegion_mutexes region with ⟨isOk, _⟩ | ⟨isOk, _⟩ | ⟨blocks, _⟩
          · cases isOk
            cases isStatus
          · cases isOk
            cases isStatus
          · cases blocks
      | blocks => exact absurd logged grows
    · exact absurd logged grows
    · exact absurd logged grows
    · rcases wakeUp_cases machine self call with
        ⟨ticks, status, isDelay, equal⟩ | ⟨expired, equal⟩ | ⟨_, equal⟩
      · rw [equal] at logged
        injection logged with event _
        injection event with _ isCall _ _
        rw [isDelay] at isCall
        cases isCall
      · rw [equal] at logged ⊢
        injection logged with event _
        injection event with isTask isCall _ _
        subst isTask
        subst isCall
        exact ⟨rfl, place, awake, expired⟩
      · rw [equal] at logged
        exact absurd logged grows

theorem failedLockHoldsNothing_of_reachable
    (reached : Reachable PoweredUp regionStep StepSafe machine) :
    FailedLockHoldsNothing machine := by
  have holds : MachineCoherent machine ∧ OutsidersOwnNothing machine :=
    Transition.Reachable.invariant (fun s => MachineCoherent s ∧ OutsidersOwnNothing s)
      (fun s powered => ⟨powered.machineCoherent, powered.outsidersOwnNothing⟩)
      (fun s a _ both safe taken => ⟨regionStep_keeps both.1 safe taken,
        outsidersOwnNothing_step both.2 both.1 safe taken⟩) reached
  obtain ⟨coherent, outsiders⟩ := holds
  intro action after t m ticks out taken logged
  obtain ⟨sameKernel, place, awake, expired⟩ := lock_timeout_step taken logged
  rw [sameKernel]
  refine ⟨outsiders t m ?_, ?_⟩
  · rw [place]
    exact ⟨rfl, Or.inr expired⟩
  · obtain ⟨waits, waiting⟩ := coherent.coherent.waits
    rw [(waiting.lists.queue (.mutex m)).reaches_iff]
    refine waiting.shape.notMem awake ?_ (.mutex m)
    unfold Machine.window
    rw [place]
    rfl

def lockTimesOut : List RegionAction :=
  [.create (some 0) 100 256 (some 1) (some 0), .create (some 0) 100 256 (some 2) (some 0),
    .pendSV, .call (.lock 0 0), .advance, .pendSV, .call (.lock 0 1), .advance, .advance, .advance,
    .sysTick]

theorem failedLockHoldsNothing_after_timeout :
    ∃ machine, Reachable PoweredUp regionStep StepSafe machine ∧
      machine.kernel.blockWakeStatus 2 = .errTimeout ∧ FailedLockHoldsNothing machine := by
  obtain ⟨final, reached, found⟩ :=
    @exists_reachable_of_run Machine RegionAction PoweredUp regionStep StepSafe stepSafeCheck
      (fun s => decide (s.kernel.blockWakeStatus 2 = .errTimeout))
      stepSafe_of_check lockTimesOut poweredMachine poweredUp_poweredMachine (by decide +kernel)
  exact ⟨final, reached, of_decide_eq_true found, failedLockHoldsNothing_of_reachable reached⟩

/-- The second task has entered the list and not blocked yet when the first one
unlocks; it then blocks as the owner and runs into its timeout. -/
def handedOverInWindow : List RegionAction :=
  [.create (some 0) 100 256 (some 1) (some 0), .create (some 0) 100 256 (some 2) (some 0),
    .pendSV, .call (.lock 0 0), .advance, .sysTick, .pendSV, .call (.lock 0 1), .advance, .sysTick,
    .pendSV, .call (.unlock 0), .advance, .pendSV, .advance, .advance, .sysTick]

def Pc.inLockWait (m ticks : Nat) : Pc → Bool
  | .blocked (.lock target timeoutTicks) => decide (target = m) && decide (timeoutTicks = ticks)
  | _ => false

theorem failedLockHoldsNothing_fails :
    ∃ machine, Reachable PoweredUp regionStep (fun _ a => kernelAction a = true) machine ∧
      ¬ FailedLockHoldsNothing machine := by
  obtain ⟨final, reached, found⟩ :=
    @exists_reachable_of_run Machine RegionAction PoweredUp regionStep
      (fun _ a => kernelAction a = true) (fun _ a => kernelAction a)
      (fun s => decide (s.kernel.currentTcb = some 2) && (s.pc 2).inLockWait 0 1 &&
        decide (s.kernel.state 2 ≠ .blocked) &&
        decide (s.kernel.blockWakeStatus 2 = .errTimeout) &&
        decide ((s.kernel.mutex 0).owner = some 2))
      (fun _ _ checked => checked) handedOverInWindow poweredMachine poweredUp_poweredMachine
      (by decide +kernel)
  simp only [Bool.and_eq_true, decide_eq_true_eq] at found
  obtain ⟨⟨⟨⟨isCurrent, waits⟩, awake⟩, expired⟩, owner⟩ := found
  have place : final.pc 2 = .blocked (.lock 0 1) := by
    unfold Pc.inLockWait at waits
    split at waits
    · rename_i target ticks isPlace
      simp only [Bool.and_eq_true, decide_eq_true_eq] at waits
      rw [isPlace, waits.1, waits.2]
    · cases waits
  have taken : regionStep final .advance =
      some (final.finish 2 (.lock 0 1) .errTimeout [] final.kernel) := by
    simp only [regionStep, isCurrent, Option.bind_some, Machine.advance, place, awake, if_false,
      Machine.wakeUp, expired, if_true]
  exact ⟨final, reached, fun holds => (holds .advance _ 2 0 1 [] taken rfl).1 owner⟩

end MicrokernelRtos
