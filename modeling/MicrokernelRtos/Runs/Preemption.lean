/-
Switches that are asked for and switches that are due.

PendSV is taken while its bit is set, and the hardware clears the bit; SVC starts the
first task.  Whatever makes a task READY sets the bit, but for `task_create`: what is
recorded beside the kernel are the tasks that were created since a switch was last asked
for.  No other task that is READY is more urgent than the one that runs.
-/

import MicrokernelRtos.Runs.Passes

namespace MicrokernelRtos

open Transition

structure PreemptState where
  system : System
  /-- The tasks that were created since a switch was last asked for. -/
  unannounced : List Addr

inductive PreemptAction where
  | other (action : Action)
  | pendSv
  | svc

def PreemptState.behind (s : PreemptState) (after : System) : PreemptState where
  system := after
  unannounced :=
    if after.kernel.pendSv then []
    else after.live.filter (fun t => decide (t ∉ s.system.live)) ++ s.unannounced

/-- The kernel when PendSV is taken. -/
def System.taken (system : System) : System :=
  { system with kernel := { system.kernel with pendSv := false } }

def preemptStep (s : PreemptState) : PreemptAction → Option PreemptState
  | .other action =>
      if action.leavesCurrent then (step s.system action).map s.behind else none
  | .pendSv =>
      if s.system.kernel.pendSv then (step s.system.taken .getNext).map fun after => ⟨after, []⟩
      else none
  | .svc =>
      if s.system.kernel.currentTcb = none then
        (step s.system .getNext).map fun after => ⟨after, []⟩
      else none

def PreemptStarted (s : PreemptState) : Prop := Started s.system ∧ s.unannounced = []

/-- An unlock leaves a RUNNING caller in its bucket, and no owner of a mutex is deleted. -/
def PreemptAllowed (s : PreemptState) : PreemptAction → Prop
  | .other action => UnlockKeepsBucket s.system action ∧ DeletesNoOwner s.system action
  | .pendSv => True
  | .svc => True

def preemptCheck (s : PreemptState) : PreemptAction → Bool
  | .other action => orderlyCheck s.system action
  | .pendSv => true
  | .svc => true

theorem preemptAllowed_of_check (s : PreemptState) (action : PreemptAction)
    (checked : preemptCheck s action = true) : PreemptAllowed s action := by
  cases action with
  | other action => exact orderly_of_check s.system action checked
  | pendSv => trivial
  | svc => trivial

/-- The task runs, and no task that is READY is in a more urgent bucket, but for these. -/
structure MostUrgent (kernel : Kernel) (runner : Addr) (others : List Addr) : Prop where
  running : kernel.state runner = .running
  least : ∀ t ∈ kernel.taskRegistry, kernel.state t = .ready → t ∉ others →
    kernel.prioBucket runner ≤ kernel.prioBucket t

/-- Where no switch is pending none is due. -/
structure Prompt (s : PreemptState) : Prop where
  system : SystemCoherent s.system
  urgent : ∀ self, s.system.kernel.currentTcb = some self → s.system.kernel.pendSv = false →
    MostUrgent s.system.kernel self s.unannounced

/-! ### What asks for a switch -/

def Announced (before after : Core) : Prop :=
  after.pendSv = true ∨
    (after.pendSv = before.pendSv ∧ after.state = before.state ∧
      after.prioBucket = before.prioBucket)

section Calls

variable {kernel result : Kernel} {self : Addr} {call : Call} {list : WaitId}

theorem Announced.refl (core : Core) : Announced core core :=
  Or.inr ⟨rfl, rfl, rfl⟩

theorem wakeHead_announced {raised : Kernel} (wake : wakeHead raised list = some result)
    (pendSv : raised.pendSv = kernel.pendSv) (state : raised.state = kernel.state)
    (bucket : raised.prioBucket = kernel.prioBucket) :
    Announced kernel.toCore result.toCore := by
  rcases wakeHead_cases wake with ⟨_, rfl⟩ | ⟨first, woken, _, _, rfl⟩
  · exact Or.inr ⟨pendSv, state, bucket⟩
  · exact Or.inl rfl

theorem enqueue_blocks {status : Status} {out : List UInt8}
    (returned : (tcbEnqueueTail kernel list self).map (fun queued => (Outcome.blocks, queued)) =
      some (.returns status out, result)) : False := by
  obtain ⟨queued, _, equal⟩ := Option.map_eq_some_iff.mp returned
  cases equal

theorem callRegion_announced {status : Status} {out : List UInt8}
    (returned : callRegion kernel self call = some (.returns status out, result)) :
    Announced kernel.toCore result.toCore := by
  cases call with
  | lock m ticks =>
      rcases mutexLockRegion_cases returned with ⟨_, _, _, rfl⟩ | ⟨_, _, rfl⟩ | ⟨blocks, _⟩
      · exact Announced.refl _
      · exact Or.inr ⟨rfl, rfl, rfl⟩
      · cases blocks
  | unlock m =>
      obtain ⟨unlocked, region, equal⟩ := Option.map_eq_some_iff.mp returned
      cases equal
      obtain ⟨restored, next, popped, _, _, ending⟩ := mutexUnlockRegion_cases region
      rcases ending with ⟨_, rfl⟩ | ⟨heir, woken, _, _, rfl⟩
      · exact Or.inl rfl
      · exact Or.inl rfl
  | wait sem ticks =>
      simp only [callRegion, semaphoreWaitRegion] at returned
      split at returned
      · cases returned
        exact Or.inr ⟨rfl, rfl, rfl⟩
      · exact (enqueue_blocks returned).elim
  | post sem =>
      simp only [callRegion, semaphorePostRegion_eq] at returned
      split at returned
      · cases returned
        exact Announced.refl _
      · rw [Option.map_map] at returned
        obtain ⟨woken, _, equal⟩ := Option.map_eq_some_iff.mp returned
        cases equal
        exact Or.inl rfl
  | send q msg ticks =>
      simp only [callRegion, msgQueueSendRegion] at returned
      split at returned
      · obtain ⟨woken, wake, equal⟩ := Option.map_eq_some_iff.mp returned
        cases equal
        exact wakeHead_announced wake rfl rfl rfl
      · exact (enqueue_blocks returned).elim
  | recv q ticks =>
      simp only [callRegion, msgQueueRecvRegion] at returned
      split at returned
      · obtain ⟨woken, wake, equal⟩ := Option.map_eq_some_iff.mp returned
        cases equal
        exact wakeHead_announced wake rfl rfl rfl
      · exact (enqueue_blocks returned).elim
  | delay ticks => cases returned

/-- A call that blocks asks for a switch, whatever its region did. -/
theorem apiCall_announced {outcome : Outcome} (isCurrent : kernel.currentTcb = some self)
    (returned : apiCall kernel call = some (outcome, result)) :
    Announced kernel.toCore result.toCore := by
  rw [apiCall_eq isCurrent] at returned
  unfold callPass at returned
  split at returned
  · cases returned
    exact Announced.refl _
  · obtain ⟨⟨early, entered⟩, region, onward⟩ := Option.bind_eq_some_iff.mp returned
    cases early with
    | returns status out =>
        cases onward
        exact callRegion_announced region
    | blocks =>
        have current : entered.currentTcb = some self := by
          rw [(callRegion_writes region).callWrites]
          exact isCurrent
        rw [(rtosBlockCurrent_core current onward).2]
        exact Or.inl rfl

end Calls

/-! ### One step -/

section Steps

variable {s after : PreemptState} {system later : System} {self t : Addr} {others : List Addr}

/-- A step in which no task but these becomes READY or changes its bucket. -/
theorem MostUrgent.of_step {kernel result : Kernel} {fewer : List Addr}
    (urgent : MostUrgent kernel self others)
    (running : result.state self = kernel.state self)
    (bucket : result.prioBucket self = kernel.prioBucket self)
    (rest : ∀ t ∈ result.taskRegistry, result.state t = .ready → t ∉ fewer →
      t ∈ kernel.taskRegistry ∧ kernel.state t = .ready ∧ t ∉ others ∧
        result.prioBucket t = kernel.prioBucket t) :
    MostUrgent result self fewer := by
  constructor
  · rw [running]
    exact urgent.running
  · intro t member ready apart
    obtain ⟨old, was, listed, same⟩ := rest t member ready apart
    rw [bucket, same]
    exact urgent.least t old was listed

theorem select_mostUrgent (holds : SystemCoherent system) {next : Kernel}
    (returned : schedulerGetNext system.kernel = some (self, next)) :
    next.currentTcb = some self ∧ MostUrgent next self [] := by
  obtain ⟨rings, ringed⟩ := holds.coherent.rings
  obtain ⟨sel, rest, result, again, _, _, _, lower, kept⟩ := schedulerGetNext_rings ringed
  cases returned.symm.trans again
  have core := (schedulerGetNext_onlyRings returned).core
  have bucket : next.prioBucket = system.kernel.prioBucket := by
    obtain ⟨state, counter, fields⟩ := select_core system.kernel self
    rw [core, fields]
  refine ⟨by rw [core]; rfl, ?_, ?_⟩
  · rw [core]
    exact Function.update_self _ _ _
  · intro t member ready _
    apply Fin.not_lt.mp
    intro above
    rw [bucket] at above
    have awake : next.state t ≠ .blocked := by
      rw [ready]
      decide
    have inRing := (kept.shape.member (system.kernel.prioBucket t) t).mpr
      ⟨member, by rw [bucket], awake⟩
    rw [Function.update_of_ne (Fin.ne_of_lt above), lower _ above] at inRing
    exact List.not_mem_nil inRing

theorem create_mostUrgent {tcb priority : Nat} {added : Kernel}
    (urgent : MostUrgent system.kernel self others) (member : self ∈ system.kernel.taskRegistry)
    (new : tcb ∉ system.kernel.taskRegistry)
    (addition : schedulerAddTask (freshTask system.kernel tcb priority (prioBucket priority))
      (some tcb) = some (.ok, added)) :
    MostUrgent { added with taskRegistry := added.taskRegistry ++ [tcb] } self
      (tcb :: others) := by
  have core := (schedulerAddTask_onlyRings (Function.update_self _ _ _) addition).core
  have different : self ≠ tcb := ne_of_mem_of_not_mem member new
  have state : ∀ t, t ≠ tcb → added.state t = system.kernel.state t := by
    intro t other
    rw [core]
    exact Function.update_of_ne other _ _
  have bucket : ∀ t, t ≠ tcb → added.prioBucket t = system.kernel.prioBucket t := by
    intro t other
    rw [core]
    exact Function.update_of_ne other _ _
  have registry : added.taskRegistry = system.kernel.taskRegistry := by
    rw [core]
    rfl
  refine urgent.of_step ?_ ?_ ?_
  · exact state self different
  · exact bucket self different
  intro t listed ready apart
  rw [List.mem_cons, not_or] at apart
  simp only [registry, List.mem_append, List.mem_singleton] at listed
  refine ⟨listed.resolve_right apart.1, ?_, apart.2, bucket t apart.1⟩
  rw [← state t apart.1]
  exact ready

theorem delete_mostUrgent {detached removed : Kernel}
    (urgent : MostUrgent system.kernel self others) (different : self ≠ t)
    (detachment : detachIfBlocked system.kernel t = some detached)
    (removal : schedulerRemoveTask detached (some t) = some removed) :
    MostUrgent { removed with
      state := Function.update removed.state t .terminated
      taskRegistry := removed.taskRegistry.erase t } self others := by
  obtain ⟨reason, object, onMutex, fields, _⟩ := detachIfBlocked_core detachment
  have core := (schedulerRemoveTask_onlyRings removal).core.trans fields
  have state : removed.state = system.kernel.state := by rw [core]
  have bucket : removed.prioBucket = system.kernel.prioBucket := by rw [core]
  have registry : removed.taskRegistry = system.kernel.taskRegistry := by rw [core]
  apply urgent.of_step
  · simp only [state]
    exact Function.update_of_ne different _ _
  · simp only [bucket]
  · intro u listed ready apart
    simp only [registry] at listed
    simp only [state] at ready
    have other : u ≠ t := by
      rintro rfl
      rw [Function.update_self] at ready
      cases ready
    rw [Function.update_of_ne other] at ready
    exact ⟨List.mem_of_mem_erase listed, ready, apart, by simp only [bucket]⟩

theorem Prompt.behind (holds : Prompt s) {action : Action} (leaves : action.leavesCurrent = true)
    (bucket : UnlockKeepsBucket s.system action) (taken : step s.system action = some later)
    (isCurrent : later.kernel.currentTcb = some self) (unset : later.kernel.pendSv = false) :
    MostUrgent later.kernel self (s.behind later).unannounced := by
  have coherent := holds.system
  have wasCurrent : s.system.kernel.currentTcb = some self := by
    rw [← step_current leaves taken]
    exact isCurrent
  have member := coherent.coherent.registry.current self wasCurrent
  unfold PreemptState.behind
  simp only [unset, Bool.false_eq_true, if_false]
  cases step_moves taken with
  | stays =>
      apply (holds.urgent self wasCurrent unset).of_step rfl rfl
      intro t listed ready apart
      rw [List.mem_append, not_or] at apart
      exact ⟨listed, ready, apart.2, rfl⟩
  | @creates _ tcb _ _ _ added fresh addition =>
      obtain ⟨notLive, _, unregistered, _⟩ := coherent.toLiveRegistry.fresh fresh
      have core := (schedulerAddTask_onlyRings (Function.update_self _ _ _) addition).core
      have wasUnset : s.system.kernel.pendSv = false := by
        rw [← unset]
        simp only [core]
        rfl
      have urgent := create_mostUrgent (holds.urgent self wasCurrent wasUnset) member
        unregistered addition
      apply urgent.of_step rfl rfl
      intro t listed ready apart
      rw [List.mem_append, not_or, List.mem_filter] at apart
      refine ⟨listed, ready, ?_, rfl⟩
      rw [List.mem_cons, not_or]
      refine ⟨?_, apart.2⟩
      rintro rfl
      exact apart.1 ⟨List.mem_cons_self, decide_eq_true notLive⟩
  | @deletes tcb detached removed live notIdle notCurrent detachment removal =>
      obtain ⟨reason, object, onMutex, fields, _⟩ := detachIfBlocked_core detachment
      have core := (schedulerRemoveTask_onlyRings removal).core.trans fields
      have wasUnset : s.system.kernel.pendSv = false := by
        rw [← unset]
        simp only [core]
      have different : self ≠ tcb := by
        rintro rfl
        exact notCurrent wasCurrent.symm
      have urgent := delete_mostUrgent (holds.urgent self wasCurrent wasUnset) different
        detachment removal
      apply urgent.of_step rfl rfl
      intro t listed ready apart
      rw [List.mem_append, not_or] at apart
      exact ⟨listed, ready, apart.2, rfl⟩
  | calls can returned =>
      obtain ⟨_, _, again, _, same⟩ := apiCall_coherent coherent bucket can
      cases returned.symm.trans again
      rcases apiCall_announced wasCurrent returned with pending | ⟨pendSv, state, buckets⟩
      · rw [pending] at unset
        cases unset
      · apply (holds.urgent self wasCurrent (pendSv ▸ unset)).of_step
        · simp only [state]
        · simp only [buckets]
        · intro t listed ready apart
          simp only [same.registry] at listed
          simp only [state] at ready
          rw [List.mem_append, not_or] at apart
          exact ⟨listed, ready, apart.2, by simp only [buckets]⟩
  | yields => cases unset
  | ticks tick =>
      obtain ⟨woken, counter, _, rfl⟩ := sysTickHandler_cases tick
      cases unset
  | selects _ => cases leaves
  | dispatches _ _ => cases leaves

theorem SystemCoherent.taken (holds : SystemCoherent system) : SystemCoherent system.taken :=
  holds.of_kernel (holds.coherent.congr rfl rfl rfl rfl rfl rfl rfl rfl rfl rfl rfl) rfl rfl

/-- Behind a switch nobody is more urgent than the task that runs. -/
theorem switch_prompt (holds : SystemCoherent system)
    (selects : step system .getNext = some later) : Prompt ⟨later, []⟩ := by
  refine ⟨@step_keeps system later .getNext holds trivial selects, ?_⟩
  obtain ⟨⟨sel, next⟩, returned, rfl⟩ := Option.map_eq_some_iff.mp selects
  obtain ⟨current, urgent⟩ := select_mostUrgent holds returned
  intro self isCurrent _
  rw [current] at isCurrent
  cases isCurrent
  exact urgent

theorem Prompt.step {action : PreemptAction} (holds : Prompt s)
    (allowed : PreemptAllowed s action) (stepped : preemptStep s action = some after) :
    Prompt after := by
  cases action with
  | other action =>
      simp only [preemptStep] at stepped
      split at stepped
      · rename_i leaves
        obtain ⟨later, taken, rfl⟩ := Option.map_eq_some_iff.mp stepped
        exact ⟨step_keeps holds.system allowed.1 taken,
          fun self isCurrent unset => holds.behind leaves allowed.1 taken isCurrent unset⟩
      · cases stepped
  | pendSv =>
      simp only [preemptStep] at stepped
      split at stepped
      · obtain ⟨later, taken, rfl⟩ := Option.map_eq_some_iff.mp stepped
        exact switch_prompt holds.system.taken taken
      · cases stepped
  | svc =>
      simp only [preemptStep] at stepped
      split at stepped
      · obtain ⟨later, taken, rfl⟩ := Option.map_eq_some_iff.mp stepped
        exact switch_prompt holds.system taken
      · cases stepped

theorem Reachable.prompt (reached : Reachable PreemptStarted preemptStep PreemptAllowed s) :
    Prompt s := by
  induction reached with
  | @initial s begins =>
      obtain ⟨started, none⟩ := begins
      refine ⟨started.systemCoherent, ?_⟩
      obtain ⟨start, idle, _, _, core, _⟩ := started.1.spec
      intro self isCurrent
      rw [core] at isCurrent
      cases isCurrent
  | next _ allowed taken ih => exact ih.step allowed taken

/-- While no switch is pending the current task runs, and a task that is READY in a more
urgent bucket was created since a switch was last asked for. -/
theorem no_missed_preemption (reached : Reachable PreemptStarted preemptStep PreemptAllowed s)
    (isCurrent : s.system.kernel.currentTcb = some self)
    (unset : s.system.kernel.pendSv = false) :
    MostUrgent s.system.kernel self s.unannounced :=
  (Reachable.prompt reached).urgent self isCurrent unset

def urgentCreation : List PreemptAction :=
  [.other (.create (some 0) 100 256 (some 1) (some 0)), .svc,
    .other (.create (some 0) 50 256 (some 2) (some 0))]

theorem no_missed_preemption_by_creation :
    ∃ s : PreemptState, s.system.kernel.currentTcb = some 1 ∧
      s.system.kernel.pendSv = false ∧ s.system.kernel.state 2 = .ready ∧
      s.system.kernel.prioBucket 2 < s.system.kernel.prioBucket 1 ∧
      MostUrgent s.system.kernel 1 [2] := by
  obtain ⟨s, reached, found⟩ :=
    @exists_reachable_of_run PreemptState PreemptAction PreemptStarted preemptStep PreemptAllowed
      preemptCheck
      (fun s => decide (s.system.kernel.currentTcb = some 1 ∧ s.system.kernel.pendSv = false ∧
        s.system.kernel.state 2 = .ready ∧
        s.system.kernel.prioBucket 2 < s.system.kernel.prioBucket 1 ∧ s.unannounced = [2]))
      preemptAllowed_of_check urgentCreation ⟨startedSystem, []⟩
      ⟨started_startedSystem, rfl⟩ (by decide +kernel)
  obtain ⟨isCurrent, unset, ready, urgent, created⟩ := of_decide_eq_true found
  have most := no_missed_preemption reached isCurrent unset
  rw [created] at most
  exact ⟨s, isCurrent, unset, ready, urgent, most⟩

theorem SystemCoherent.switches (holds : SystemCoherent system) :
    ∃ later self, step system .getNext = some later ∧ later.kernel.currentTcb = some self ∧
      self ∈ later.kernel.taskRegistry ∧ MostUrgent later.kernel self [] := by
  obtain ⟨self, next, returned, _, _, keeps, _⟩ := schedulerGetNext_keeps holds.coherent
  obtain ⟨current, urgent⟩ := select_mostUrgent holds returned
  refine ⟨{ system with kernel := next }, self, ?_, current,
    keeps.registry.current self current, urgent⟩
  simp only [step, returned, Option.map_some]

theorem SystemCoherent.ticks (holds : SystemCoherent system) :
    ∃ later, step system .sysTick = some later ∧ later.kernel.pendSv = true := by
  obtain ⟨result, tick, _⟩ := sysTickHandler_keeps holds.coherent
  obtain ⟨woken, counter, _, isResult⟩ := sysTickHandler_cases tick
  refine ⟨{ system with kernel := result }, ?_, by simp only [isResult]⟩
  simp only [step, tick, Option.map_some]

/-- One tick, and the switch it asks for, brings the processor to the most urgent of all
tasks. -/
theorem tick_brings_most_urgent
    (reached : Reachable PreemptStarted preemptStep PreemptAllowed s) :
    ∃ ticked after self, preemptStep s (.other .sysTick) = some ticked ∧
      preemptStep ticked .pendSv = some after ∧
      after.system.kernel.currentTcb = some self ∧ self ∈ after.system.kernel.taskRegistry ∧
      MostUrgent after.system.kernel self [] := by
  have holds := Reachable.prompt reached
  obtain ⟨later, ticks, pending⟩ := holds.system.ticks
  have ticked : preemptStep s (.other .sysTick) = some (s.behind later) := by
    simp only [preemptStep, Action.leavesCurrent, if_true, ticks, Option.map_some]
  have onward := @Prompt.step s (s.behind later) (.other .sysTick) holds ⟨trivial, trivial⟩ ticked
  obtain ⟨switched, self, selects, current, member, urgent⟩ := onward.system.taken.switches
  refine ⟨s.behind later, ⟨switched, []⟩, self, ticked, ?_, current, member, urgent⟩
  unfold preemptStep
  simp only
  rw [if_pos (show (s.behind later).system.kernel.pendSv = true from pending), selects]
  rfl

theorem tick_brings_created_task :
    ∃ s ticked after : PreemptState, ∃ self, s.system.kernel.currentTcb = some 1 ∧
      preemptStep s (.other .sysTick) = some ticked ∧ preemptStep ticked .pendSv = some after ∧
      after.system.kernel.currentTcb = some self ∧
      MostUrgent after.system.kernel self [] := by
  obtain ⟨s, reached, found⟩ :=
    @exists_reachable_of_run PreemptState PreemptAction PreemptStarted preemptStep PreemptAllowed
      preemptCheck
      (fun s => decide (s.system.kernel.currentTcb = some 1))
      preemptAllowed_of_check urgentCreation ⟨startedSystem, []⟩
      ⟨started_startedSystem, rfl⟩ (by decide +kernel)
  obtain ⟨ticked, after, self, ticks, switches, current, _, urgent⟩ :=
    tick_brings_most_urgent reached
  exact ⟨s, ticked, after, self, of_decide_eq_true found, ticks, switches, current, urgent⟩

end Steps

end MicrokernelRtos
