/-
Runs in which every call, up to its block point, is one step.

A call is made by the current task, which has to be a task other than idle that
is not BLOCKED, or by `main` before the scheduler has started.  The heap is the
environment: it may return any block below the pool size that is not the control
block of a live task.  The scheduler is `scheduler_get_next`, or left open by
letting any task that is not BLOCKED run next.
-/

import MicrokernelRtos.Library.TransitionSystem
import MicrokernelRtos.Coherence.Boot
import MicrokernelRtos.Coherence.Mutexes

namespace MicrokernelRtos

open Linked Transition

/-- The kernel with the tasks that have been created and not deleted. -/
structure System where
  kernel : Kernel
  live : List Addr

inductive Action where
  | create (taskFunc : Option Nat) (priority stackSize : Nat) (tcbBlock stackBlock : Option Addr)
  | delete (tcb : Addr)
  | call (call : Call)
  | yield
  | sysTick
  | getNext
  | dispatch (t : Addr)

/-- Code of the application can run: the current task is neither idle nor in
the wait loop of `rtos_block_current`. -/
def canCall (kernel : Kernel) : Bool :=
  match kernel.currentTcb with
  | none => true
  | some self => decide (some self ≠ kernel.idleTcb) && decide (kernel.state self ≠ .blocked)

def heapFresh (system : System) (block : Option Addr) : Bool :=
  match block with
  | none => true
  | some tcb => decide (tcb ∉ system.live) && decide (some tcb ≠ system.kernel.idleTcb) &&
      decide (tcb < system.kernel.config.poolSize)

def step (system : System) : Action → Option System
  | .create taskFunc priority stackSize tcbBlock stackBlock =>
      if canCall system.kernel && heapFresh system tcbBlock then
        (taskCreate system.kernel taskFunc priority stackSize tcbBlock stackBlock).map
          fun created => { kernel := created.2, live := created.1.toList ++ system.live }
      else none
  | .delete tcb =>
      if canCall system.kernel && decide (tcb ∈ system.live) then
        (taskDelete system.kernel (some tcb)).map fun deleted =>
          { kernel := deleted.2
            live := if deleted.1 = .ok then system.live.erase tcb else system.live }
      else none
  | .call call =>
      if canCall system.kernel then
        (apiCall system.kernel call).map fun passed => { system with kernel := passed.2 }
      else none
  | .yield =>
      if canCall system.kernel then some { system with kernel := taskYield system.kernel }
      else none
  | .sysTick => (sysTickHandler system.kernel).map fun ticked => { system with kernel := ticked }
  | .getNext => (schedulerGetNext system.kernel).map fun next => { system with kernel := next.2 }
  | .dispatch t =>
      if t ∈ system.kernel.taskRegistry ∧ system.kernel.state t ≠ .blocked then
        some { system with kernel := dispatch (preemptCurrent system.kernel) t }
      else none

/-- After `task_init`, before any task has been created. -/
def Started (system : System) : Prop := Booted system.kernel ∧ system.live = []

def startedSystem : System where
  kernel := bootedKernel
  live := []

theorem started_startedSystem : Started startedSystem := ⟨booted_bootedKernel, rfl⟩

/-! ### Coherence along a run -/

/-- The registry names idle and the live tasks. -/
structure LiveRegistry (system : System) : Prop where
  distinct : system.live.Nodup
  idleApart : ∀ t ∈ system.live, some t ≠ system.kernel.idleTcb
  registry : ∀ t, t ∈ system.kernel.taskRegistry ↔
    t ∈ system.live ∨ some t = system.kernel.idleTcb

/-- The lists mean what they should, and no caller is on its way. -/
structure SystemCoherent (system : System) : Prop extends LiveRegistry system where
  coherent : Coherent system.kernel noWindow

structure SameTasks (before after : Core) : Prop where
  registry : after.taskRegistry = before.taskRegistry
  idle : after.idleTcb = before.idleTcb
  config : after.config = before.config

theorem SameTasks.refl (core : Core) : SameTasks core core := ⟨rfl, rfl, rfl⟩

theorem SameTasks.trans {first middle last : Core} (earlier : SameTasks first middle)
    (later : SameTasks middle last) : SameTasks first last :=
  ⟨later.registry.trans earlier.registry, later.idle.trans earlier.idle,
    later.config.trans earlier.config⟩

theorem Quiet.sameTasks {before after : Core} (quiet : Quiet before after) :
    SameTasks before after :=
  ⟨quiet.registry, quiet.idle, quiet.config⟩

/-- An unlock that is not refused leaves a RUNNING caller in its bucket. -/
def UnlockKeepsBucket (system : System) : Action → Prop
  | .call call => ∀ self ∈ system.kernel.currentTcb,
      callRefused system.kernel self call = none → KeepsBucket system.kernel self call
  | _ => True

instance (system : System) (action : Action) : Decidable (UnlockKeepsBucket system action) :=
  match action with
  | .call call => inferInstanceAs (Decidable (∀ self ∈ system.kernel.currentTcb,
      callRefused system.kernel self call = none → KeepsBucket system.kernel self call))
  | .create _ _ _ _ _ => isTrue trivial
  | .delete _ => isTrue trivial
  | .yield => isTrue trivial
  | .sysTick => isTrue trivial
  | .getNext => isTrue trivial
  | .dispatch _ => isTrue trivial

/-- The task that is deleted owns no mutex, so that no mutex names memory that goes
back to the heap. -/
def DeletesNoOwner (system : System) : Action → Prop
  | .delete tcb => OwnsNoMutex system.kernel tcb
  | _ => True

def keepsTasks : Action → Bool
  | .delete _ => false
  | _ => true

theorem deletesNoOwner_of_keepsTasks {system : System} {action : Action}
    (keeps : keepsTasks action = true) : DeletesNoOwner system action := by
  cases action with
  | delete tcb => cases keeps
  | _ => trivial

def orderlyCheck (system : System) (action : Action) : Bool :=
  decide (UnlockKeepsBucket system action) && keepsTasks action

theorem orderly_of_check (system : System) (action : Action)
    (checked : orderlyCheck system action = true) :
    UnlockKeepsBucket system action ∧ DeletesNoOwner system action := by
  rw [orderlyCheck, Bool.and_eq_true, decide_eq_true_eq] at checked
  exact ⟨checked.1, deletesNoOwner_of_keepsTasks checked.2⟩

section Calls

variable {kernel result : Kernel} {self : Addr}

theorem WaitCoherent.mem_blocked {waits : WaitId → List Addr} {list : WaitId} {t : Addr}
    (waiting : WaitCoherent kernel waits noWindow) (member : t ∈ waits list) :
    kernel.state t = .blocked := by
  rcases ((waiting.shape.member list t).mp member).2 with blocked | onWay
  · exact blocked.1
  · cases onWay

/-- Without a caller on its way every waiter is BLOCKED. -/
theorem popsBlocked_of_noWindow (coherent : Coherent kernel noWindow) (call : Call) :
    PopsBlocked kernel call := by
  obtain ⟨waits, waiting⟩ := coherent.waits
  have headBlocked : ∀ list first, kernel.waitHead list = some first →
      kernel.state first = .blocked := by
    intro list first headAt
    rw [(waiting.lists.queue list).head_eq] at headAt
    exact waiting.mem_blocked (List.mem_of_head? headAt)
  cases call with
  | unlock m =>
      intro heir popped
      by_cases empty : waits (.mutex m) = []
      · rw [waitPopHighest_empty waiting.lists empty] at popped
        cases popped
      · obtain ⟨before, best, after, result, split, _, _, pop, _⟩ :=
          waitPopHighest_spec waiting.lists (waiting.length_le _) empty
        rw [pop] at popped
        cases popped
        exact @WaitCoherent.mem_blocked kernel waits (.mutex m) heir waiting (by simp [split])
  | post sem => exact fun _ => headBlocked _
  | send q msg timeoutTicks => exact fun _ => headBlocked _
  | recv q timeoutTicks => exact fun _ => headBlocked _
  | lock m timeoutTicks => trivial
  | wait sem timeoutTicks => trivial
  | delay ticks => trivial

theorem rtosBlockCurrent_keeps {call : Call}
    (coherent : Coherent kernel (Function.update noWindow self call.list))
    (isCurrent : kernel.currentTcb = some self) (notIdle : some self ≠ kernel.idleTcb)
    (awake : kernel.state self ≠ .blocked) :
    ∃ result, rtosBlockCurrent kernel call.timeoutTicks call.reason call.object =
        some (.blocks, result) ∧ Coherent result noWindow ∧
      SameTasks kernel.toCore result.toCore := by
  have armed := blockFields_keeps coherent awake call.reason call.object
  have named : waitId ((blockFields kernel self call.reason call.object).blockReason self)
      ((blockFields kernel self call.reason call.object).blockObject self) =
      Function.update noWindow self call.list self := by
    simp [blockFields, Call.list]
  obtain ⟨result, returned, keeps, core⟩ :=
    @blockRegion_keeps _ _ self call.timeoutTicks armed isCurrent notIdle awake named
  have settled : Function.update (Function.update noWindow self call.list) self none =
      noWindow := by
    rw [Function.update_idem]
    exact Function.update_eq_self _ _
  rw [settled] at keeps
  refine ⟨result, ?_, keeps, by rw [core]; exact ⟨rfl, rfl, rfl⟩⟩
  unfold rtosBlockCurrent
  rw [isCurrent]
  simp only [returned, Option.map_some]

theorem callPass_cases {call : Call} {outcome : Outcome}
    (isCurrent : kernel.currentTcb = some self)
    (returned : callPass kernel self call = some (outcome, result)) :
    (∃ status, callRefused kernel self call = some status ∧ result = kernel) ∨
    (callRefused kernel self call = none ∧ ∃ ends entered,
      callRegion kernel self call = some (ends, entered) ∧
      ((∃ status out, ends = .returns status out ∧ result = entered) ∨
        (ends = .blocks ∧
          blockRegion (blockFields entered self call.reason call.object) self call.timeoutTicks =
            some result))) := by
  unfold callPass at returned
  split at returned
  · rename_i status refused
    cases returned
    exact Or.inl ⟨status, refused, rfl⟩
  · rename_i accepted
    obtain ⟨⟨ends, entered⟩, region, rest⟩ := Option.bind_eq_some_iff.mp returned
    refine Or.inr ⟨accepted, ends, entered, region, ?_⟩
    cases ends with
    | returns status out =>
        cases rest
        exact Or.inl ⟨status, out, rfl, rfl⟩
    | blocks =>
        have current : entered.currentTcb = some self := by
          rw [(callRegion_writes region).fields]
          exact isCurrent
        simp only [rtosBlockCurrent, current] at rest
        obtain ⟨blocked, block, equal⟩ := Option.map_eq_some_iff.mp rest
        cases equal
        exact Or.inr ⟨rfl, block⟩

/-- A call that is not refused goes through its region and may block. -/
theorem callPass_keeps (coherent : Coherent kernel noWindow)
    (isCurrent : kernel.currentTcb = some self) (notIdle : some self ≠ kernel.idleTcb)
    (awake : kernel.state self ≠ .blocked) (call : Call)
    (bucket : callRefused kernel self call = none → KeepsBucket kernel self call) :
    ∃ outcome result, callPass kernel self call = some (outcome, result) ∧
      Coherent result noWindow ∧ SameTasks kernel.toCore result.toCore := by
  unfold callPass
  cases refused : callRefused kernel self call with
  | some status => exact ⟨_, kernel, rfl, coherent, SameTasks.refl _⟩
  | none =>
      obtain ⟨outcome, result, returned, keeps⟩ :=
        callRegion_keeps coherent isCurrent notIdle awake rfl call
          (popsBlocked_of_noWindow coherent call) (bucket refused)
      have quiet := keeps.quiet
      simp only [blockingPass, returned, Option.bind_some]
      cases outcome with
      | returns status out =>
          exact ⟨_, result, rfl, keeps.coherent, quiet.sameTasks⟩
      | blocks =>
          obtain ⟨blocked, block, blockedCoherent, same⟩ :=
            rtosBlockCurrent_keeps keeps.coherent (quiet.current.trans isCurrent)
              (by rw [quiet.idle]; exact notIdle) (quiet.awake awake)
          exact ⟨_, blocked, block, blockedCoherent, quiet.sameTasks.trans same⟩

theorem apiCall_unstarted (coherent : Coherent kernel noWindow)
    (nobody : kernel.currentTcb = none) (call : Call) :
    ∃ outcome result, apiCall kernel call = some (outcome, result) ∧
      Coherent result noWindow ∧ SameTasks kernel.toCore result.toCore := by
  cases call with
  | lock m timeoutTicks =>
      exact ⟨.returns .errState [], kernel, by simp only [apiCall, mutexLock, nobody],
        coherent, SameTasks.refl _⟩
  | unlock m =>
      exact ⟨.returns .errOwner [], kernel,
        by simp only [apiCall, mutexUnlock, nobody, Option.map_some], coherent,
        SameTasks.refl _⟩
  | wait sem timeoutTicks =>
      exact ⟨.returns .errState [], kernel, by simp only [apiCall, semaphoreWait, nobody],
        coherent, SameTasks.refl _⟩
  | send q msg timeoutTicks =>
      exact ⟨.returns .errState [], kernel, by simp only [apiCall, msgQueueSend, nobody],
        coherent, SameTasks.refl _⟩
  | recv q timeoutTicks =>
      exact ⟨.returns .errState [], kernel, by simp only [apiCall, msgQueueRecv, nobody],
        coherent, SameTasks.refl _⟩
  | delay ticks =>
      simp only [apiCall, taskDelay, rtosBlockCurrent, nobody]
      split
      · exact ⟨_, kernel, rfl, coherent, SameTasks.refl _⟩
      · exact ⟨_, kernel, rfl, coherent, SameTasks.refl _⟩
  | post sem =>
      simp only [apiCall, semaphorePost, semaphorePostRegion_eq]
      split
      · exact ⟨_, kernel, rfl, coherent, SameTasks.refl _⟩
      · rename_i room
        have raised : Coherent (setCount kernel sem ((kernel.semaphore sem).count + 1)) noWindow :=
          coherent.congr rfl rfl rfl rfl rfl rfl rfl rfl rfl rfl rfl
        obtain ⟨result, returned, keeps, quiet⟩ := wakeHead_keeps raised
          (popsBlocked_of_noWindow coherent (.post sem) (Nat.lt_of_not_le room))
        rw [returned]
        exact ⟨_, _, rfl, keeps.congr rfl rfl rfl rfl rfl rfl rfl rfl rfl rfl rfl,
          quiet.registry, quiet.idle, quiet.config⟩

end Calls

variable {system after : System} {action : Action}

theorem canCall_some {kernel : Kernel} {self : Addr} (can : canCall kernel = true)
    (isCurrent : kernel.currentTcb = some self) :
    some self ≠ kernel.idleTcb ∧ kernel.state self ≠ .blocked := by
  simpa [canCall, isCurrent] using can

theorem LiveRegistry.of_kernel (holds : LiveRegistry system) {kernel : Kernel}
    (registry : kernel.taskRegistry = system.kernel.taskRegistry)
    (idle : kernel.idleTcb = system.kernel.idleTcb) :
    LiveRegistry { system with kernel := kernel } := by
  refine ⟨holds.distinct, ?_, ?_⟩
  · rw [idle]
    exact holds.idleApart
  · intro t
    rw [registry, idle]
    exact holds.registry t

theorem LiveRegistry.fresh (holds : LiveRegistry system) {tcb : Addr}
    (fresh : heapFresh system (some tcb) = true) :
    tcb ∉ system.live ∧ some tcb ≠ system.kernel.idleTcb ∧
      tcb ∉ system.kernel.taskRegistry ∧ tcb < system.kernel.config.poolSize := by
  simp only [heapFresh, Bool.and_eq_true, decide_eq_true_eq] at fresh
  obtain ⟨⟨notLive, notIdle⟩, bounded⟩ := fresh
  refine ⟨notLive, notIdle, fun member => ?_, bounded⟩
  exact ((holds.registry tcb).mp member).elim notLive notIdle

theorem LiveRegistry.created (holds : LiveRegistry system) {tcb priority : Nat} {added : Kernel}
    (fresh : heapFresh system (some tcb) = true)
    (addition : schedulerAddTask (freshTask system.kernel tcb priority (prioBucket priority))
      (some tcb) = some (.ok, added)) :
    LiveRegistry { kernel := { added with taskRegistry := added.taskRegistry ++ [tcb] }
                   live := tcb :: system.live } := by
  obtain ⟨notLive, notIdle, _, _⟩ := holds.fresh fresh
  have frame := schedulerAddTask_onlyRings (Function.update_self _ _ _) addition
  have registry : added.taskRegistry = system.kernel.taskRegistry := by
    rw [frame.core]
    rfl
  have idle : added.idleTcb = system.kernel.idleTcb := by
    rw [frame.core]
    rfl
  refine ⟨List.nodup_cons.mpr ⟨notLive, holds.distinct⟩, ?_, ?_⟩
  · intro t member
    simp only [idle]
    rcases List.mem_cons.mp member with rfl | old
    · exact notIdle
    · exact holds.idleApart t old
  · intro t
    simp only [registry, idle, List.mem_append, holds.registry, List.mem_cons]
    tauto

theorem LiveRegistry.deleted (holds : LiveRegistry system) {tcb : Addr}
    (distinct : system.kernel.taskRegistry.Nodup) (member : tcb ∈ system.live)
    {detached removed : Kernel} (detachment : detachIfBlocked system.kernel tcb = some detached)
    (removal : schedulerRemoveTask detached (some tcb) = some removed) :
    LiveRegistry { kernel := { removed with
                     state := Function.update removed.state tcb .terminated
                     taskRegistry := removed.taskRegistry.erase tcb }
                   live := system.live.erase tcb } := by
  obtain ⟨reason, object, onMutex, fields, _⟩ := detachIfBlocked_core detachment
  have core := (schedulerRemoveTask_onlyRings removal).core.trans fields
  have registry : removed.taskRegistry = system.kernel.taskRegistry := by rw [core]
  have idle : removed.idleTcb = system.kernel.idleTcb := by rw [core]
  refine ⟨holds.distinct.erase tcb, ?_, ?_⟩
  · intro t inside
    simp only [idle]
    exact holds.idleApart t (List.mem_of_mem_erase inside)
  · intro t
    simp only [registry, idle]
    rw [distinct.mem_erase_iff, holds.distinct.mem_erase_iff, holds.registry]
    constructor
    · rintro ⟨different, live | isIdle⟩
      · exact Or.inl ⟨different, live⟩
      · exact Or.inr isIdle
    · rintro (⟨different, live⟩ | isIdle)
      · exact ⟨different, Or.inl live⟩
      · refine ⟨?_, Or.inr isIdle⟩
        rintro rfl
        exact holds.idleApart t member isIdle

theorem SystemCoherent.of_kernel (holds : SystemCoherent system) {kernel : Kernel}
    (coherent : Coherent kernel noWindow)
    (registry : kernel.taskRegistry = system.kernel.taskRegistry)
    (idle : kernel.idleTcb = system.kernel.idleTcb) :
    SystemCoherent { system with kernel := kernel } :=
  ⟨holds.toLiveRegistry.of_kernel registry idle, coherent⟩

/-- What a step can be, with its guards.  A creation or a deletion that is refused
changes nothing. -/
inductive Moves (system : System) : Action → System → Prop where
  | stays {action : Action} : Moves system action system
  | creates {taskFunc : Option Nat} {tcb priority stackSize : Nat} {stackBlock : Option Addr}
      {added : Kernel} (fresh : heapFresh system (some tcb) = true)
      (addition : schedulerAddTask (freshTask system.kernel tcb priority (prioBucket priority))
        (some tcb) = some (.ok, added)) :
      Moves system (.create taskFunc priority stackSize (some tcb) stackBlock)
        { kernel := { added with taskRegistry := added.taskRegistry ++ [tcb] }
          live := tcb :: system.live }
  | deletes {tcb : Addr} {detached removed : Kernel} (member : tcb ∈ system.live)
      (notIdle : some tcb ≠ system.kernel.idleTcb)
      (notCurrent : some tcb ≠ system.kernel.currentTcb)
      (detachment : detachIfBlocked system.kernel tcb = some detached)
      (removal : schedulerRemoveTask detached (some tcb) = some removed) :
      Moves system (.delete tcb)
        { kernel := { removed with
            state := Function.update removed.state tcb .terminated
            taskRegistry := removed.taskRegistry.erase tcb }
          live := system.live.erase tcb }
  | calls {call : Call} {outcome : Outcome} {result : Kernel}
      (can : canCall system.kernel = true)
      (returned : apiCall system.kernel call = some (outcome, result)) :
      Moves system (.call call) { system with kernel := result }
  | yields : Moves system .yield { system with kernel := taskYield system.kernel }
  | ticks {ticked : Kernel} (tick : sysTickHandler system.kernel = some ticked) :
      Moves system .sysTick { system with kernel := ticked }
  | selects {sel : Addr} {next : Kernel}
      (returned : schedulerGetNext system.kernel = some (sel, next)) :
      Moves system .getNext { system with kernel := next }
  | dispatches {t : Addr} (member : t ∈ system.kernel.taskRegistry)
      (awake : system.kernel.state t ≠ .blocked) :
      Moves system (.dispatch t)
        { system with kernel := dispatch (preemptCurrent system.kernel) t }

theorem step_moves (taken : step system action = some after) : Moves system action after := by
  cases action with
  | create taskFunc priority stackSize tcbBlock stackBlock =>
      simp only [step] at taken
      split at taken
      · rename_i guards
        rw [Bool.and_eq_true] at guards
        obtain ⟨⟨handle, created⟩, creation, rfl⟩ := Option.map_eq_some_iff.mp taken
        rcases taskCreate_cases creation with
          ⟨rfl, rfl⟩ | ⟨tcb, added, rfl, rfl, _, addition, rfl⟩
        · exact .stays
        · exact .creates guards.2 addition
      · cases taken
  | delete tcb =>
      simp only [step] at taken
      split at taken
      · rename_i guards
        rw [Bool.and_eq_true, decide_eq_true_eq] at guards
        obtain ⟨⟨status, deleted⟩, deletion, rfl⟩ := Option.map_eq_some_iff.mp taken
        rcases taskDelete_cases deletion with ⟨refused, rfl⟩ |
          ⟨t, detached, removed, isTask, rfl, notIdle, notCurrent, detachment, removal, rfl⟩
        · dsimp only
          rw [if_neg refused]
          exact .stays
        · cases isTask
          exact .deletes guards.2 notIdle notCurrent detachment removal
      · cases taken
  | call call =>
      simp only [step] at taken
      split at taken
      · rename_i can
        obtain ⟨⟨outcome, result⟩, returned, rfl⟩ := Option.map_eq_some_iff.mp taken
        exact .calls can returned
      · cases taken
  | yield =>
      simp only [step] at taken
      split at taken
      · cases taken
        exact .yields
      · cases taken
  | sysTick =>
      obtain ⟨ticked, tick, rfl⟩ := Option.map_eq_some_iff.mp taken
      exact .ticks tick
  | getNext =>
      obtain ⟨⟨sel, next⟩, returned, rfl⟩ := Option.map_eq_some_iff.mp taken
      exact .selects returned
  | dispatch t =>
      simp only [step] at taken
      split at taken
      · rename_i runnable
        cases taken
        exact .dispatches runnable.1 runnable.2
      · cases taken

theorem apiCall_coherent (holds : SystemCoherent system) {call : Call}
    (bucket : UnlockKeepsBucket system (.call call)) (can : canCall system.kernel = true) :
    ∃ outcome result, apiCall system.kernel call = some (outcome, result) ∧
      Coherent result noWindow ∧ SameTasks system.kernel.toCore result.toCore := by
  cases isCurrent : system.kernel.currentTcb with
  | none => exact apiCall_unstarted holds.coherent isCurrent call
  | some self =>
      obtain ⟨notIdle, awake⟩ := canCall_some can isCurrent
      rw [apiCall_eq isCurrent]
      exact callPass_keeps holds.coherent isCurrent notIdle awake call (bucket self isCurrent)

def Action.leavesTasks : Action → Bool
  | .create _ _ _ _ _ => false
  | .delete _ => false
  | _ => true

theorem step_sameTasks (holds : SystemCoherent system) (bucket : UnlockKeepsBucket system action)
    (leaves : action.leavesTasks = true) (taken : step system action = some after) :
    SameTasks system.kernel.toCore after.kernel.toCore ∧ after.live = system.live := by
  cases step_moves taken with
  | stays => exact ⟨SameTasks.refl _, rfl⟩
  | creates _ _ => cases leaves
  | deletes _ _ _ _ _ => cases leaves
  | calls can returned =>
      obtain ⟨outcome, result, again, _, same⟩ := apiCall_coherent holds bucket can
      cases returned.symm.trans again
      exact ⟨same, rfl⟩
  | yields => exact ⟨⟨rfl, rfl, rfl⟩, rfl⟩
  | ticks tick => exact ⟨(sysTickHandler_quiet tick).sameTasks, rfl⟩
  | @selects sel next returned =>
      obtain ⟨state, counter, fields⟩ := select_core system.kernel sel
      have core := (schedulerGetNext_onlyRings returned).core.trans fields
      exact ⟨⟨by rw [core], by rw [core], by rw [core]⟩, rfl⟩
  | @dispatches t _ _ =>
      obtain ⟨state, counter, fields⟩ := select_core system.kernel t
      exact ⟨⟨by rw [fields], by rw [fields], by rw [fields]⟩, rfl⟩

theorem SystemCoherent.selected (holds : SystemCoherent system) {sel : Addr} {next : Kernel}
    (returned : schedulerGetNext system.kernel = some (sel, next)) :
    sel ∈ system.kernel.taskRegistry ∧ system.kernel.state sel ≠ .blocked ∧
      Coherent next noWindow := by
  obtain ⟨chosen, result, again, member, awake, keeps, _⟩ := schedulerGetNext_keeps holds.coherent
  cases returned.symm.trans again
  exact ⟨member, awake, keeps⟩

theorem step_keeps (holds : SystemCoherent system) (bucket : UnlockKeepsBucket system action)
    (taken : step system action = some after) : SystemCoherent after := by
  cases step_moves taken with
  | stays => exact holds
  | creates fresh addition =>
      obtain ⟨_, _, unregistered, bounded⟩ := holds.toLiveRegistry.fresh fresh
      exact ⟨holds.toLiveRegistry.created fresh addition,
        create_keeps holds.coherent unregistered bounded addition⟩
  | deletes member notIdle notCurrent detachment removal =>
      have distinct := holds.coherent.registry.distinct
      exact ⟨holds.toLiveRegistry.deleted distinct member detachment removal,
        delete_keeps holds.coherent rfl notIdle notCurrent detachment removal⟩
  | calls can returned =>
      obtain ⟨outcome, result, again, coherent, same⟩ := apiCall_coherent holds bucket can
      cases returned.symm.trans again
      exact holds.of_kernel coherent same.registry same.idle
  | yields =>
      exact holds.of_kernel (holds.coherent.congr rfl rfl rfl rfl rfl rfl rfl rfl rfl rfl rfl)
        rfl rfl
  | ticks tick =>
      obtain ⟨result, returned, keeps⟩ := sysTickHandler_keeps holds.coherent
      cases tick.symm.trans returned
      have quiet := sysTickHandler_quiet tick
      exact holds.of_kernel keeps quiet.registry quiet.idle
  | @selects sel next returned =>
      obtain ⟨same, _⟩ := step_sameTasks holds bucket rfl taken
      exact holds.of_kernel (holds.selected returned).2.2 same.registry same.idle
  | @dispatches t member awake =>
      obtain ⟨same, _⟩ := step_sameTasks holds bucket rfl taken
      exact holds.of_kernel (dispatch_keeps holds.coherent member awake) same.registry same.idle

theorem Started.liveRegistry (started : Started system) : LiveRegistry system := by
  obtain ⟨booted, empty⟩ := started
  refine ⟨by rw [empty]; exact List.nodup_nil, ?_, ?_⟩
  · rw [empty]
    intro t member
    exact absurd member List.not_mem_nil
  · intro t
    obtain ⟨start, idle, _, _, core, _⟩ := booted.spec
    rw [empty, core]
    simp [bareKernel, freshTask]

theorem Started.systemCoherent (started : Started system) : SystemCoherent system :=
  ⟨started.liveRegistry, started.1.coherent⟩

theorem Reachable.systemCoherent {allowed : System → Action → Prop}
    (bucket : ∀ s a, allowed s a → UnlockKeepsBucket s a)
    (reached : Reachable Started step allowed system) : SystemCoherent system :=
  Transition.Reachable.invariant SystemCoherent (fun _ started => started.systemCoherent)
    (fun s a _ holds permitted taken => step_keeps holds (bucket s a permitted) taken) reached

end MicrokernelRtos
