/-
Wakeups between the regions.

A caller enters a wait list in one region and blocks in the next.  In between it
is on the list and in a ready ring.  As long as no call wakes a caller in that
position, none is deleted there, and no owner of a mutex is deleted, every list and
ring means what it should in every state of every interleaving.
-/

import MicrokernelRtos.Coherence.Mutexes
import MicrokernelRtos.Runs.Regions

namespace MicrokernelRtos

open Linked Transition

variable {machine after : Machine} {action : RegionAction} {self t : Addr} {call : Call}
variable {kernel : Kernel}

/-! ### Tasks and their places -/

def Pc.window : Pc → Option WaitId
  | .enqueued call => call.list
  | .armed call => call.list
  | _ => none

def Machine.window (machine : Machine) : Addr → Option WaitId := fun t => (machine.pc t).window

/-- A BLOCKED task is in the wait loop, and its block fields are those of its
call; a task that is about to block has them already. -/
structure PlaceFits (core : Core) (t : Addr) (place : Pc) : Prop where
  asleep : core.state t = .blocked → ∃ call, place = .blocked call ∧
    core.blockReason t = call.reason ∧ core.blockObject t = call.object ∧
    core.blockWakeStatus t = .ok
  armed : ∀ call, place = .armed call → core.blockReason t = call.reason ∧
    core.blockObject t = call.object ∧ core.blockWakeStatus t = .ok

structure MachineCoherent (machine : Machine) : Prop where
  coherent : Coherent machine.kernel machine.window
  places : ∀ t ∈ machine.kernel.taskRegistry, PlaceFits machine.kernel.toCore t (machine.pc t)
  idle : ∀ t, some t = machine.kernel.idleTcb → machine.pc t = .user
  absent : ∀ t, t ∉ machine.kernel.taskRegistry → machine.pc t = .user

/-- A step has left a task to its place: it has not blocked it, and the block
fields are as before unless the task has been woken. -/
structure Unmoved (before after : Core) (t : Addr) : Prop where
  asleep : after.state t = .blocked → before.state t = .blocked
  fields : after.state t = .blocked ∨ before.state t ≠ .blocked →
    after.blockReason t = before.blockReason t ∧ after.blockObject t = before.blockObject t ∧
      after.blockWakeStatus t = before.blockWakeStatus t

theorem PlaceFits.unmoved {before after : Core} {place : Pc} (fits : PlaceFits before t place)
    (unmoved : Unmoved before after t) : PlaceFits after t place := by
  constructor
  · intro blocked
    obtain ⟨call, isPlace, reason, object, status⟩ := fits.asleep (unmoved.asleep blocked)
    obtain ⟨sameReason, sameObject, sameStatus⟩ := unmoved.fields (Or.inl blocked)
    exact ⟨call, isPlace, sameReason.trans reason, sameObject.trans object,
      sameStatus.trans status⟩
  · intro call isPlace
    have awake : before.state t ≠ .blocked := by
      intro blocked
      obtain ⟨other, otherPlace, _⟩ := fits.asleep blocked
      rw [isPlace] at otherPlace
      cases otherPlace
    obtain ⟨reason, object, status⟩ := fits.armed call isPlace
    obtain ⟨sameReason, sameObject, sameStatus⟩ := unmoved.fields (Or.inr awake)
    exact ⟨sameReason.trans reason, sameObject.trans object, sameStatus.trans status⟩

theorem Quiet.unmoved {before after : Core} (quiet : Quiet before after) (t : Addr) :
    Unmoved before after t := by
  rcases quiet.task t with ⟨state, reason, object, status⟩ | ⟨blocked, ready⟩
  · refine ⟨?_, fun _ => ⟨reason, object, status⟩⟩
    rw [state]
    exact id
  · constructor
    · intro isBlocked
      rw [ready] at isBlocked
      cases isBlocked
    · rintro (isBlocked | awake)
      · rw [ready] at isBlocked
        cases isBlocked
      · exact absurd blocked awake

theorem select_unmoved {sel : Addr} (awake : kernel.state sel ≠ .blocked) (t : Addr) :
    Unmoved kernel.toCore (dispatch (preemptCurrent kernel) sel).toCore t := by
  obtain ⟨state, counter, fields⟩ := select_core kernel sel
  refine ⟨(select_blocked_iff awake t).mp, fun _ => ?_⟩
  rw [fields]
  exact ⟨rfl, rfl, rfl⟩

theorem MachineCoherent.awake (holds : MachineCoherent machine)
    (isCurrent : machine.kernel.currentTcb = some self)
    (elsewhere : ∀ call, machine.pc self ≠ .blocked call) :
    machine.kernel.state self ≠ .blocked := by
  intro blocked
  have live := holds.coherent.registry.current self isCurrent
  obtain ⟨call, place, _⟩ := (holds.places self live).asleep blocked
  exact elsewhere call place

theorem MachineCoherent.notIdle (holds : MachineCoherent machine) (self : Addr)
    (inside : machine.pc self ≠ .user) : some self ≠ machine.kernel.idleTcb :=
  fun isIdle => inside (holds.idle self isIdle)

structure AtWork (machine : Machine) (caller : Addr) : Prop where
  live : caller ∈ machine.kernel.taskRegistry
  notIdle : some caller ≠ machine.kernel.idleTcb
  awake : machine.kernel.state caller ≠ .blocked

theorem MachineCoherent.atWork (holds : MachineCoherent machine) {place : Pc}
    (isCurrent : machine.kernel.currentTcb = some self) (isPlace : machine.pc self = place)
    (inside : place ≠ .user) (elsewhere : ∀ call, place ≠ .blocked call) :
    AtWork machine self := by
  refine ⟨holds.coherent.registry.current self isCurrent, ?_, ?_⟩
  · exact holds.notIdle self (by rw [isPlace]; exact inside)
  · exact holds.awake isCurrent (by rw [isPlace]; exact elsewhere)

theorem MachineCoherent.window_update (place : Pc) :
    (fun item => (Function.update machine.pc self place item).window) =
      Function.update machine.window self place.window := by
  funext item
  by_cases same : item = self
  · subst item
    simp
  · simp [same, Machine.window]

theorem MachineCoherent.moved (holds : MachineCoherent machine) {place : Pc} {log : List Event}
    (coherent : Coherent kernel (Function.update machine.window self place.window))
    (registry : kernel.taskRegistry = machine.kernel.taskRegistry)
    (idle : kernel.idleTcb = machine.kernel.idleTcb)
    (live : self ∈ machine.kernel.taskRegistry)
    (notIdle : some self ≠ machine.kernel.idleTcb)
    (others : ∀ t, t ≠ self → Unmoved machine.kernel.toCore kernel.toCore t)
    (fits : PlaceFits kernel.toCore self place) :
    MachineCoherent
      { kernel := kernel, pc := Function.update machine.pc self place, log := log } := by
  constructor
  · rw [← MachineCoherent.window_update] at coherent
    exact coherent
  · intro t member
    rw [registry] at member
    by_cases same : t = self
    · subst t
      dsimp only
      rw [Function.update_self]
      exact fits
    · dsimp only
      rw [Function.update_of_ne same]
      exact (holds.places t member).unmoved (others t same)
  · intro t isIdle
    rw [idle] at isIdle
    have different : t ≠ self := by
      rintro rfl
      exact notIdle isIdle
    dsimp only
    rw [Function.update_of_ne different]
    exact holds.idle t isIdle
  · intro t gone
    rw [registry] at gone
    have different : t ≠ self := by
      rintro rfl
      exact gone live
    dsimp only
    rw [Function.update_of_ne different]
    exact holds.absent t gone

theorem MachineCoherent.of_background (holds : MachineCoherent machine)
    (coherent : Coherent kernel machine.window)
    (registry : kernel.taskRegistry = machine.kernel.taskRegistry)
    (idle : kernel.idleTcb = machine.kernel.idleTcb)
    (others : ∀ t, Unmoved machine.kernel.toCore kernel.toCore t) :
    MachineCoherent { machine with kernel := kernel } := by
  refine ⟨coherent, ?_, ?_, ?_⟩
  · intro t member
    rw [registry] at member
    exact (holds.places t member).unmoved (others t)
  · intro t isIdle
    rw [idle] at isIdle
    exact holds.idle t isIdle
  · intro t gone
    rw [registry] at gone
    exact holds.absent t gone

/-! ### The steps -/

/-- The region a task is about to enter wakes nobody that has not blocked yet and
leaves a RUNNING caller of unlock in its bucket. -/
def PlaceSafe (kernel : Kernel) (self : Addr) : Pc → Prop
  | .entering call => PopsBlocked kernel call ∧ KeepsBucket kernel self call
  | _ => True

instance (kernel : Kernel) (self : Addr) (place : Pc) : Decidable (PlaceSafe kernel self place) :=
  match place with
  | .entering call => inferInstanceAs
      (Decidable (PopsBlocked kernel call ∧ KeepsBucket kernel self call))
  | .user => isTrue trivial
  | .enqueued _ => isTrue trivial
  | .armed _ => isTrue trivial
  | .blocked _ => isTrue trivial

/-- The region of the current task is safe, and a task that is deleted is not between
the two regions of a call and owns no mutex. -/
def StepSafe (machine : Machine) : RegionAction → Prop
  | .advance => ∀ self ∈ machine.kernel.currentTcb,
      PlaceSafe machine.kernel self (machine.pc self)
  | .delete tcb => some tcb ≠ machine.kernel.currentTcb →
      (machine.pc tcb).window = none ∧ OwnsNoMutex machine.kernel tcb
  | _ => True

def stepSafeCheck (machine : Machine) : RegionAction → Bool
  | .advance => decide (∀ self ∈ machine.kernel.currentTcb,
      PlaceSafe machine.kernel self (machine.pc self))
  | .delete _ => false
  | _ => true

theorem stepSafe_of_check (machine : Machine) (action : RegionAction)
    (checked : stepSafeCheck machine action = true) : StepSafe machine action := by
  cases action with
  | advance =>
      have safe : ∀ self ∈ machine.kernel.currentTcb,
          PlaceSafe machine.kernel self (machine.pc self) := of_decide_eq_true checked
      exact safe
  | delete tcb => cases checked
  | _ => trivial

theorem background_keeps (holds : MachineCoherent machine)
    (background : Background machine.kernel action kernel) :
    MachineCoherent { machine with kernel := kernel } := by
  cases background with
  | refused action => exact holds
  | tick ticked =>
      obtain ⟨result, returned, keeps⟩ := sysTickHandler_keeps holds.coherent
      rw [ticked] at returned
      cases returned
      have quiet := sysTickHandler_quiet ticked
      exact holds.of_background keeps quiet.registry quiet.idle quiet.unmoved
  | @select chosen _ selected =>
      obtain ⟨sel, result, returned, _, awake, keeps, core⟩ :=
        schedulerGetNext_keeps holds.coherent
      rw [selected] at returned
      cases returned
      obtain ⟨state, counter, fields⟩ := select_core machine.kernel chosen
      refine holds.of_background keeps (by rw [core, fields]) (by rw [core, fields]) ?_
      rw [core]
      exact select_unmoved awake
  | dispatch t live awake =>
      obtain ⟨state, counter, fields⟩ := select_core machine.kernel t
      exact holds.of_background (dispatch_keeps holds.coherent live awake) (by rw [fields])
        (by rw [fields]) (select_unmoved awake)

theorem window_of_user (place : machine.pc t = .user) : machine.window t = none := by
  unfold Machine.window
  rw [place]
  rfl

theorem window_user_eq (outside : machine.window t = none) :
    Function.update machine.window t (Pc.user).window = machine.window := by
  have same : (Pc.user).window = machine.window t := outside.symm
  rw [same, Function.update_eq_self]

theorem createStep_keeps (holds : MachineCoherent machine) {tcb priority : Nat} {added : Kernel}
    (fresh : tcb ∉ machine.kernel.taskRegistry) (bounded : tcb < machine.kernel.config.poolSize)
    (addition : schedulerAddTask (freshTask machine.kernel tcb priority (prioBucket priority))
      (some tcb) = some (.ok, added)) :
    MachineCoherent (machine.move tcb .user
      { added with taskRegistry := added.taskRegistry ++ [tcb] }) := by
  have core := (schedulerAddTask_onlyRings (Function.update_self _ _ _) addition).core
  have outside := window_of_user (holds.absent tcb fresh)
  have same : Function.update machine.pc tcb .user = machine.pc := by
    rw [← holds.absent tcb fresh, Function.update_eq_self]
  have registry : added.taskRegistry = machine.kernel.taskRegistry := by
    rw [core]
    rfl
  have idle : added.idleTcb = machine.kernel.idleTcb := by
    rw [core]
    rfl
  unfold Machine.move
  rw [same]
  refine ⟨create_keeps holds.coherent fresh bounded addition, ?_, ?_, ?_⟩
  · intro t member
    rw [core]
    by_cases isNew : t = tcb
    · subst t
      rw [holds.absent tcb fresh]
      constructor
      · intro blocked
        simp [freshTask] at blocked
      · intro call isArmed
        cases isArmed
    · have old : t ∈ machine.kernel.taskRegistry := by
        simpa [registry, isNew] using member
      refine (holds.places t old).unmoved ⟨?_, fun _ => ?_⟩
      · simp [freshTask, isNew]
      · simp [freshTask, isNew]
  · intro t isIdle
    exact holds.idle t (idle ▸ isIdle)
  · intro t gone
    refine holds.absent t fun old => gone ?_
    simp [registry, old]

theorem deleteStep_keeps (holds : MachineCoherent machine) {tcb : Addr}
    (safe : some tcb ≠ machine.kernel.currentTcb → (machine.pc tcb).window = none)
    (deletion : taskDelete machine.kernel (some tcb) = some (.ok, kernel)) :
    MachineCoherent (machine.move tcb .user kernel) := by
  obtain ⟨status, result, returned, coherent⟩ :=
    @taskDelete_keeps _ _ tcb holds.coherent fun _ notCurrent => safe notCurrent
  rw [deletion] at returned
  cases returned
  rcases taskDelete_cases deletion with
    ⟨refused, _⟩ | ⟨t, detached, removed, isTask, _, notIdle, notCurrent, detachment, removal, rfl⟩
  · exact absurd rfl refused
  · cases isTask
    obtain ⟨reason, object, onMutex, fields, elsewhere⟩ := detachIfBlocked_core detachment
    have core := (schedulerRemoveTask_onlyRings removal).core.trans fields
    have registry : removed.taskRegistry = machine.kernel.taskRegistry := by rw [core]
    have idle : removed.idleTcb = machine.kernel.idleTcb := by rw [core]
    have distinct := holds.coherent.registry.distinct
    constructor
    · have windows := @MachineCoherent.window_update machine tcb .user
      rw [window_user_eq (safe notCurrent)] at windows
      change Coherent _ fun item => (Function.update machine.pc tcb .user item).window
      rw [windows]
      exact coherent
    · intro t member
      simp only [Machine.move, registry, distinct.mem_erase_iff] at member
      simp only [Machine.move, Function.update_of_ne member.1]
      refine (holds.places t member.2).unmoved ?_
      rw [core]
      refine ⟨?_, fun _ => ?_⟩
      · simp [member.1]
      · exact ⟨(elsewhere t member.1).1, (elsewhere t member.1).2.1, rfl⟩
    · intro t isIdle
      simp only [Machine.move, idle] at isIdle
      have different : t ≠ tcb := by
        rintro rfl
        exact notIdle isIdle
      simp only [Machine.move, Function.update_of_ne different]
      exact holds.idle t isIdle
    · intro t gone
      simp only [Machine.move, registry, distinct.mem_erase_iff] at gone
      by_cases same : t = tcb
      · subst t
        exact Function.update_self _ _ _
      · simp only [Machine.move, Function.update_of_ne same]
        exact holds.absent t fun member => gone ⟨same, member⟩

theorem PlaceFits.of_awake {core : Core} {place : Pc} (awake : core.state t ≠ .blocked)
    (unarmed : ∀ call, place ≠ .armed call) : PlaceFits core t place :=
  ⟨fun blocked => absurd blocked awake, fun call isArmed => absurd isArmed (unarmed call)⟩

theorem enterStep_keeps (holds : MachineCoherent machine) (user : machine.inUser = true)
    (isCurrent : machine.kernel.currentTcb = some self) :
    MachineCoherent (machine.enter self call) := by
  obtain ⟨notIdle, place⟩ := inUser_some user isCurrent
  have live := holds.coherent.registry.current self isCurrent
  have awake := holds.awake isCurrent fun call isBlocked => by
    rw [place] at isBlocked
    cases isBlocked
  have outside := window_of_user place
  have coherent : Coherent machine.kernel
      (Function.update machine.window self (Pc.user).window) := by
    rw [window_user_eq outside]
    exact holds.coherent
  unfold Machine.enter
  split
  · exact holds.moved coherent rfl rfl live notIdle (fun t _ => (Quiet.refl _).unmoved t)
      (.of_awake awake (by simp))
  · exact holds.moved coherent rfl rfl live notIdle (fun t _ => (Quiet.refl _).unmoved t)
      (.of_awake awake (by simp))

/-- The region of a call keeps the lists and wakes only tasks that are BLOCKED. -/
theorem MachineCoherent.region_keeps (holds : MachineCoherent machine)
    (isCurrent : machine.kernel.currentTcb = some self)
    (place : machine.pc self = .entering call)
    (safe : PlaceSafe machine.kernel self (machine.pc self))
    {outcome : Outcome} (returned : callRegion machine.kernel self call = some (outcome, kernel)) :
    RegionKeeps machine.kernel machine.window self call outcome kernel := by
  have working := holds.atWork isCurrent place (by simp) (by simp)
  have outside : machine.window self = none := by
    unfold Machine.window
    rw [place]
    rfl
  rw [place] at safe
  obtain ⟨other, result, returnedIs, keeps⟩ :=
    callRegion_keeps holds.coherent isCurrent working.notIdle working.awake outside call safe.1
      safe.2
  rw [returned] at returnedIs
  cases returnedIs
  exact keeps

theorem regionPlace_keeps (holds : MachineCoherent machine)
    (isCurrent : machine.kernel.currentTcb = some self)
    (place : machine.pc self = .entering call)
    (safe : PlaceSafe machine.kernel self (machine.pc self))
    {outcome : Outcome} (returned : callRegion machine.kernel self call = some (outcome, kernel)) :
    MachineCoherent (machine.leave self call outcome kernel) := by
  have working := holds.atWork isCurrent place (by simp) (by simp)
  have keeps := holds.region_keeps isCurrent place safe returned
  have stillAwake := keeps.quiet.awake working.awake
  have outside : machine.window self = none := by
    unfold Machine.window
    rw [place]
    rfl
  cases outcome with
  | returns status out =>
      refine holds.moved ?_ keeps.quiet.registry keeps.quiet.idle working.live working.notIdle
        (fun t _ => keeps.quiet.unmoved t) (.of_awake stillAwake (by simp))
      rw [window_user_eq outside]
      exact keeps.coherent
  | blocks =>
      exact holds.moved keeps.coherent keeps.quiet.registry keeps.quiet.idle working.live
        working.notIdle (fun t _ => keeps.quiet.unmoved t) (.of_awake stillAwake (by simp))

theorem enqueuedPlace_keeps (holds : MachineCoherent machine)
    (isCurrent : machine.kernel.currentTcb = some self)
    (place : machine.pc self = .enqueued call) :
    MachineCoherent (machine.move self (.armed call)
      (blockFields machine.kernel self call.reason call.object)) := by
  obtain ⟨live, notIdle, awake⟩ := holds.atWork isCurrent place (by simp) (by simp)
  have same : Function.update machine.window self (Pc.armed call).window = machine.window := by
    have windowIs : (Pc.armed call).window = machine.window self := by
      unfold Machine.window
      rw [place]
      rfl
    rw [windowIs, Function.update_eq_self]
  refine holds.moved ?_ rfl rfl live notIdle ?_ ⟨fun blocked => absurd blocked awake, ?_⟩
  · rw [same]
    exact blockFields_keeps holds.coherent awake _ _
  · intro t different
    refine ⟨id, fun _ => ⟨?_, ?_, ?_⟩⟩
    · exact Function.update_of_ne different _ _
    · exact Function.update_of_ne different _ _
    · exact Function.update_of_ne different _ _
  · intro other isArmed
    cases isArmed
    exact ⟨Function.update_self _ _ _, Function.update_self _ _ _, Function.update_self _ _ _⟩

theorem armedPlace_keeps (holds : MachineCoherent machine)
    (isCurrent : machine.kernel.currentTcb = some self)
    (place : machine.pc self = .armed call)
    (returned : blockRegion machine.kernel self call.timeoutTicks = some kernel) :
    MachineCoherent (machine.move self (.blocked call) kernel) := by
  obtain ⟨live, notIdle, awake⟩ := holds.atWork isCurrent place (by simp) (by simp)
  obtain ⟨reason, object, status⟩ := (holds.places self live).armed call place
  have named : waitId (machine.kernel.blockReason self) (machine.kernel.blockObject self) =
      machine.window self := by
    unfold Machine.window
    rw [reason, object, place]
    rfl
  obtain ⟨result, returnedIs, keeps, core⟩ :=
    @blockRegion_keeps _ _ self call.timeoutTicks holds.coherent isCurrent notIdle awake named
  rw [returned] at returnedIs
  cases returnedIs
  refine holds.moved keeps (by rw [core]; rfl) (by rw [core]; rfl) live notIdle ?_ ⟨?_, ?_⟩
  · intro t different
    rw [core]
    refine ⟨?_, fun _ => ⟨rfl, rfl, rfl⟩⟩
    simp [schedulerMarkReschedule, blockState, different]
  · intro _
    rw [core]
    exact ⟨call, rfl, reason, object, status⟩
  · intro other isArmed
    cases isArmed

theorem blockedPlace_keeps (holds : MachineCoherent machine)
    (isCurrent : machine.kernel.currentTcb = some self)
    (place : machine.pc self = .blocked call) (awake : machine.kernel.state self ≠ .blocked) :
    MachineCoherent (machine.wakeUp self call) := by
  have live := holds.coherent.registry.current self isCurrent
  have notIdle := holds.notIdle self (by rw [place]; intro isUser; cases isUser)
  have outside : machine.window self = none := by
    unfold Machine.window
    rw [place]
    rfl
  have coherent : Coherent machine.kernel
      (Function.update machine.window self (Pc.user).window) := by
    rw [window_user_eq outside]
    exact holds.coherent
  have unmoved : ∀ t, t ≠ self → Unmoved machine.kernel.toCore machine.kernel.toCore t :=
    fun t _ => (Quiet.refl _).unmoved t
  rcases wakeUp_cases machine self call with ⟨ticks, status, _, same⟩ | ⟨_, same⟩ | ⟨_, same⟩
  · rw [same]
    exact holds.moved coherent rfl rfl live notIdle unmoved
      (.of_awake awake (by simp))
  · rw [same]
    exact holds.moved coherent rfl rfl live notIdle unmoved
      (.of_awake awake (by simp))
  · rw [same]
    exact holds.moved coherent rfl rfl live notIdle unmoved
      (.of_awake awake (by simp))

theorem regionStep_keeps (holds : MachineCoherent machine) (safe : StepSafe machine action)
    (taken : regionStep machine action = some after) : MachineCoherent after := by
  rcases regionStep_cases taken with ⟨kernel, background, rfl⟩ |
    ⟨tcb, priority, added, _, fresh, bounded, addition, rfl⟩ |
    ⟨tcb, kernel, rfl, _, _, deletion, rfl⟩ | ⟨self, call, isCurrent, user, rfl⟩ |
    ⟨self, rfl, isCurrent, moves⟩
  · exact background_keeps holds background
  · exact createStep_keeps holds fresh bounded addition
  · exact deleteStep_keeps holds (fun notCurrent => (safe notCurrent).1) deletion
  · exact enterStep_keeps holds user isCurrent
  · rcases advance_cases moves with ⟨call, outcome, kernel, place, region, rfl⟩ |
      ⟨call, place, rfl⟩ | ⟨call, kernel, place, region, rfl⟩ | ⟨call, place, awake, rfl⟩
    · exact regionPlace_keeps holds isCurrent place (safe self isCurrent) region
    · exact enqueuedPlace_keeps holds isCurrent place
    · exact armedPlace_keeps holds isCurrent place region
    · exact blockedPlace_keeps holds isCurrent place awake

theorem PoweredUp.machineCoherent (powered : PoweredUp machine) : MachineCoherent machine := by
  have windows : machine.window = noWindow := by
    unfold Machine.window
    rw [powered.pc]
    rfl
  have coherent := powered.booted.coherent
  constructor
  · rw [windows]
    exact coherent
  · intro t member
    obtain ⟨start, idle, _, _, core, _⟩ := powered.booted.spec
    rw [powered.pc]
    refine .of_awake ?_ (by simp)
    rw [core] at member ⊢
    rw [List.mem_singleton.mp member]
    simp [freshTask]
  · intro t _
    rw [powered.pc]
  · intro t _
    rw [powered.pc]

theorem Reachable.machineCoherent {allowed : Machine → RegionAction → Prop}
    (safe : ∀ s a, allowed s a → StepSafe s a)
    (reached : Reachable PoweredUp regionStep allowed machine) : MachineCoherent machine :=
  Transition.Reachable.invariant MachineCoherent (fun _ powered => powered.machineCoherent)
    (fun s a _ holds permitted taken => regionStep_keeps holds (safe s a permitted) taken) reached

/-! ### No wakeup is lost -/

/-- A task that is BLOCKED on an object is on the list of the object, and every
task handed to `scheduler_add_task` was in no ring. -/
structure NoLostWakeup (kernel : Kernel) : Prop where
  listed : ∀ t ∈ kernel.taskRegistry, kernel.state t = .blocked →
    kernel.blockReason t ≠ .none → kernel.blockReason t ≠ .delay →
    ∃ list, waitId (kernel.blockReason t) (kernel.blockObject t) = some list ∧
      Reaches kernel.mutexWaitNext (kernel.waitHead list) t
  fresh : ∀ added ∈ kernel.addCalls, added.Fresh

theorem Call.list_isSome (call : Call) (object : call.reason ≠ .none)
    (timed : call.reason ≠ .delay) :
    ∃ list, call.list = some list := by
  cases call with
  | lock m timeoutTicks => exact ⟨_, rfl⟩
  | wait sem timeoutTicks => exact ⟨_, rfl⟩
  | send q msg timeoutTicks => exact ⟨_, rfl⟩
  | recv q timeoutTicks => exact ⟨_, rfl⟩
  | unlock m => exact absurd rfl object
  | post sem => exact absurd rfl object
  | delay ticks => exact absurd rfl timed

theorem MachineCoherent.noLostWakeup (holds : MachineCoherent machine) :
    NoLostWakeup machine.kernel := by
  obtain ⟨⟨rings, rung⟩, waits, waiting⟩ := holds.coherent
  refine ⟨?_, rung.lists.fresh⟩
  intro t member blocked isReason isTimed
  obtain ⟨call, _, reason, object, _⟩ := (holds.places t member).asleep blocked
  rw [reason] at isReason isTimed
  obtain ⟨list, isList⟩ := call.list_isSome isReason isTimed
  have named : waitId (machine.kernel.blockReason t) (machine.kernel.blockObject t) =
      some list := by
    rw [reason, object]
    exact isList
  have onList : t ∈ waits list :=
    (waiting.shape.member list t).mpr ⟨member, Or.inl ⟨blocked, named⟩⟩
  exact ⟨list, named, (waiting.lists.queue list).path.reaches onList⟩

/-- In every run, also with a scheduler that picks any task that is not BLOCKED. -/
theorem noLostWakeup_of_reachable
    (reached : Reachable PoweredUp regionStep StepSafe machine) : NoLostWakeup machine.kernel :=
  (Reachable.machineCoherent (fun _ _ safe => safe) reached).noLostWakeup

def waitThenPost : List RegionAction :=
  [.create (some 0) 100 256 (some 1) (some 0), .create (some 0) 100 256 (some 2) (some 0),
    .pendSV, .call (.wait 0 0), .advance, .advance, .advance, .pendSV, .call (.post 0), .advance]

theorem noLostWakeup_after_post :
    ∃ machine, Reachable PoweredUp regionStep StepSafe machine ∧
      (machine.kernel.semaphore 0).count = 1 ∧ NoLostWakeup machine.kernel := by
  obtain ⟨final, reached, found⟩ :=
    @exists_reachable_of_run Machine RegionAction PoweredUp regionStep StepSafe stepSafeCheck
      (fun s => decide ((s.kernel.semaphore 0).count = 1)) stepSafe_of_check waitThenPost
      poweredMachine poweredUp_poweredMachine (by decide +kernel)
  exact ⟨final, reached, of_decide_eq_true found, noLostWakeup_of_reachable reached⟩

def kernelAction : RegionAction → Bool
  | .dispatch _ => false
  | _ => true

/-- The same two tasks, with the post between the two regions of the wait. -/
def postInWindow : List RegionAction :=
  [.create (some 0) 100 256 (some 1) (some 0), .create (some 0) 100 256 (some 2) (some 0),
    .pendSV, .call (.wait 0 0), .advance, .sysTick, .pendSV, .call (.post 0), .advance, .pendSV,
    .advance, .advance]

/-- The waiter is BLOCKED on the semaphore and the wait list is empty. -/
theorem noLostWakeup_fails :
    ∃ machine, Reachable PoweredUp regionStep (fun _ a => kernelAction a = true) machine ∧
      ¬ NoLostWakeup machine.kernel := by
  obtain ⟨final, reached, found⟩ :=
    @exists_reachable_of_run Machine RegionAction PoweredUp regionStep
      (fun _ a => kernelAction a = true) (fun _ a => kernelAction a)
      (fun s => decide (1 ∈ s.kernel.taskRegistry) && decide (s.kernel.state 1 = .blocked) &&
        decide (s.kernel.blockReason 1 = .semaphore) &&
        decide (s.kernel.blockObject 1 = some 0) &&
        decide (s.kernel.waitHead (.semaphore 0) = none))
      (fun _ _ checked => checked) postInWindow poweredMachine poweredUp_poweredMachine
      (by decide +kernel)
  simp only [Bool.and_eq_true, decide_eq_true_eq] at found
  obtain ⟨⟨⟨⟨member, blocked⟩, reason⟩, object⟩, empty⟩ := found
  refine ⟨final, reached, fun holds => ?_⟩
  obtain ⟨list, named, onList⟩ := holds.listed 1 member blocked (by rw [reason]; decide)
    (by rw [reason]; decide)
  rw [reason, object] at named
  cases named
  rw [empty] at onList
  cases onList

end MicrokernelRtos
