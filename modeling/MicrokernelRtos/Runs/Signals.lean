/-
`SysTick_Handler` with software timers whose callbacks post semaphores.

The handler raises the counter, wakes the tasks whose time is over, and then calls the
callbacks of the timers that expire; what they post is seen by the waiting tasks before
the handler ends.  The time slice comes last.  The counter of the kernel and the one
that the timers read are one variable of task.c.

What a callback posts is a function of the callback and its argument.  The check of the
stacks writes nothing here.
-/

import MicrokernelRtos.Runs.OnTime
import MicrokernelRtos.Runs.Passes

namespace MicrokernelRtos

open Linked Transition Agenda

structure TickState where
  system : System
  machine : TimerMachine
  /-- The semaphores that the callback that runs has yet to post. -/
  posts : List Nat

inductive TickAction where
  | thread (action : Action)
  | timer (call : TimerCall)
  | enter
  | expire
  | post
  | finish
  | leave

def Action.isTick : Action → Bool
  | .sysTick => true
  | _ => false

section Machine

variable (signals : Nat → Nat → List Nat)

/-- What the callback of a timer posts. -/
def Timers.signalled (timers : Timers) (t : TimerAddr) : List Nat :=
  match timers.callback t with
  | none => []
  | some cb => signals cb (timers.callbackArg t)

def tickStep (s : TickState) : TickAction → Option TickState
  | .thread action =>
      if s.machine.mode = .user ∧ action.isTick = false then
        (step s.system action).map fun system => { s with system := system }
      else none
  | .timer call =>
      (timerStep s.machine (.call call)).map fun machine => { s with machine := machine }
  | .enter =>
      (rtosWakeDelayed (rtosTickIncrement s.system.kernel)).bind fun woken =>
        (timerStep s.machine .tick).map fun machine =>
          { s with system := { s.system with kernel := woken }, machine := machine }
  | .expire =>
      (headDue s.machine.timers).bind fun due =>
        (timerStep s.machine .expire).map fun machine =>
          { s with machine := machine, posts := s.machine.timers.signalled signals due }
  | .post =>
      match s.posts with
      | [] => none
      | sem :: later =>
          (semaphorePost s.system.kernel (some sem)).map fun posted =>
            { s with system := { s.system with kernel := posted.2 }, posts := later }
  | .finish =>
      if s.posts = [] then
        (timerStep s.machine .finish).map fun machine => { s with machine := machine }
      else none
  | .leave =>
      (timerStep s.machine .leave).bind fun machine =>
        (schedulerTimeSliceTick s.system.kernel).map fun sliced =>
          { s with
            system := { s.system with kernel := schedulerMarkReschedule sliced }
            machine := machine }

def TickState.next (s : TickState) : Option TickAction :=
  match s.machine.mode with
  | .user => none
  | .draining => some (if headDue s.machine.timers = none then .leave else .expire)
  | .calling _ => some (if s.posts = [] then .finish else .post)

def TickState.handle : Nat → TickState → Option TickState
  | 0, s => if s.machine.mode = .user then some s else none
  | fuel + 1, s =>
      match s.next with
      | none => some s
      | some action => (tickStep signals s action).bind (TickState.handle fuel)

def TickState.sysTick (fuel : Nat) (s : TickState) : Option TickState :=
  (tickStep signals s .enter).bind (TickState.handle signals fuel)

end Machine

structure TickStarted (s : TickState) : Prop where
  system : Started s.system
  timers : TimersInitialised s.machine
  ticks : s.system.kernel.tickCount = s.machine.timers.tickCount

/-- A thread unlocks without leaving its bucket and deletes no owner of a mutex, only
timers that are not in the list are started, no tick and no expiry wraps, and a callback
leaves its own timer alone. -/
def TickAllowed (s : TickState) : TickAction → Prop
  | .thread action => UnlockKeepsBucket s.system action ∧ DeletesNoOwner s.system action
  | .timer call => StaysBelow s.machine (.call call)
  | .enter => StaysBelow s.machine .tick
  | .finish => StaysBelow s.machine .finish ∧ LeavesOwnTimer s.machine .finish
  | _ => True

/-- The kernel is in order, the timers are on time, and both read the same counter. -/
structure TickHolds (s : TickState) : Prop where
  system : SystemCoherent s.system
  timers : ∃ order, TimerLaw s.machine order
  ticks : s.system.kernel.tickCount = s.machine.timers.tickCount

/-! ### The kernel in the handler -/

section Kernel

variable {kernel result : Kernel} {sem other : Nat} {w : Addr}

theorem schedulerTimeSliceTick_fields (returned : schedulerTimeSliceTick kernel = some result) :
    result = { kernel with
      timeSliceCounter := result.timeSliceCounter, pendSv := result.pendSv } := by
  unfold schedulerTimeSliceTick at returned
  split at returned
  · cases returned
    rfl
  · split at returned
    · cases returned
      rfl
    · simp only at returned
      split at returned
      · cases returned
        rfl
      · split at returned
        · cases returned
          rfl
        · split at returned <;> · cases returned; rfl

theorem slice_keeps (coherent : Coherent kernel noWindow) :
    ∃ sliced, schedulerTimeSliceTick kernel = some sliced ∧
      Coherent (schedulerMarkReschedule sliced) noWindow ∧
      (schedulerMarkReschedule sliced).toCore = { kernel.toCore with
        timeSliceCounter := sliced.timeSliceCounter, pendSv := true } := by
  obtain ⟨sliced, slice⟩ := schedulerTimeSliceTick_returns kernel
  have fields := schedulerTimeSliceTick_fields slice
  refine ⟨sliced, slice, ?_, ?_⟩
  · rw [fields]
    exact coherent.congr rfl rfl rfl rfl rfl rfl rfl rfl rfl rfl rfl
  · rw [fields]
    rfl

theorem wakeDelayed_keeps (coherent : Coherent kernel noWindow) :
    ∃ woken, rtosWakeDelayed (rtosTickIncrement kernel) = some woken ∧
      Coherent woken noWindow ∧
      Wakes (rtosTickIncrement kernel).toCore woken.toCore fun t => t ∈ kernel.taskRegistry ∧
        Expires (rtosTickIncrement kernel) (rtosTickIncrement kernel).tickCount t := by
  obtain ⟨⟨rings, ringed⟩, waits, waiting⟩ := coherent
  have ticked : RingCoherent (rtosTickIncrement kernel) rings :=
    ringed.congr rfl rfl rfl rfl rfl rfl rfl rfl rfl
  have tickedWaits : WaitCoherent (rtosTickIncrement kernel) waits noWindow :=
    waiting.congr rfl rfl rfl rfl rfl rfl rfl
  obtain ⟨woken, grown, wake, held, _⟩ :=
    @wakeLoop_rings (rtosTickIncrement kernel) rings waits noWindow
      (rtosTickIncrement kernel).tickCount (rtosTickIncrement kernel).taskRegistry ticked
      tickedWaits (fun _ member => member)
  exact ⟨woken, wake, ⟨⟨grown, held⟩, _, wakeLoop_waits tickedWaits wake⟩, wakeLoop_wakes wake⟩

theorem post_keeps (coherent : Coherent kernel noWindow) (sem : Nat) :
    ∃ status result, semaphorePost kernel (some sem) = some (status, result) ∧
      Coherent result noWindow ∧ Quiet kernel.toCore result.toCore ∧
      result.tickCount = kernel.tickCount := by
  simp only [semaphorePost, semaphorePostRegion_eq]
  split
  · exact ⟨_, kernel, rfl, coherent, Quiet.refl _, rfl⟩
  · rename_i room
    have raised : Coherent (setCount kernel sem ((kernel.semaphore sem).count + 1)) noWindow :=
      coherent.congr rfl rfl rfl rfl rfl rfl rfl rfl rfl rfl rfl
    obtain ⟨woken, wake, keeps, quiet⟩ := wakeHead_keeps raised
      (popsBlocked_of_noWindow coherent (.post sem) (Nat.lt_of_not_le room))
    rw [wake]
    refine ⟨_, _, rfl, keeps.congr rfl rfl rfl rfl rfl rfl rfl rfl rfl rfl rfl,
      ⟨quiet.registry, quiet.config, quiet.current, quiet.idle, quiet.task⟩, ?_⟩
    rcases wakeHead_core wake with core | ⟨first, _, core⟩
    · simp only [schedulerMarkReschedule]
      rw [core]
      rfl
    · simp only [schedulerMarkReschedule]
      rw [core]
      rfl

/-- The task has waited longest for a semaphore that can be posted. -/
def FirstWaiter (kernel : Kernel) (sem : Nat) (w : Addr) : Prop :=
  kernel.waitHead (.semaphore sem) = some w ∧
    (kernel.semaphore sem).count < (kernel.semaphore sem).maxCount

theorem Quiet.stays_ready {before after : Core} (quiet : Quiet before after)
    (ready : before.state w = .ready) : after.state w = .ready := by
  rcases quiet.task w with ⟨state, _⟩ | ⟨_, awake⟩
  · exact state.trans ready
  · exact awake

theorem wakeDelayed_firstWaiter (coherent : Coherent kernel noWindow)
    (returned : rtosWakeDelayed (rtosTickIncrement kernel) = some result)
    (waits : FirstWaiter kernel sem w) :
    result.state w = .ready ∨ FirstWaiter result sem w := by
  obtain ⟨_, lists, waiting⟩ := coherent
  have ticked : WaitCoherent (rtosTickIncrement kernel) lists noWindow :=
    waiting.congr rfl rfl rfl rfl rfl rfl rfl
  have wakes := wakeLoop_wakes returned
  have after := wakeLoop_waits ticked returned
  have headAt : (lists (.semaphore sem)).head? = some w :=
    (waiting.lists.queue (.semaphore sem)).head_eq.symm.trans waits.1
  obtain ⟨rest, shape⟩ := List.head?_eq_some_iff.mp headAt
  by_cases expires : w ∈ (rtosTickIncrement kernel).taskRegistry ∧
      Expires (rtosTickIncrement kernel) (rtosTickIncrement kernel).tickCount w
  · exact Or.inl (wakes.ready w expires)
  · refine Or.inr ⟨?_, ?_⟩
    · rw [(after.lists.queue (.semaphore sem)).head_eq]
      simp only [withoutExpired, shape]
      rw [List.filter_cons_of_pos]
      · rfl
      · simp only [Bool.not_eq_true', decide_eq_false_iff_not]
        exact expires
    · have semaphore : result.semaphore = kernel.semaphore := by
        rw [wakes.fields]
        rfl
      rw [semaphore]
      exact waits.2

theorem post_wakes {status : Status}
    (returned : semaphorePost kernel (some sem) = some (status, result))
    (waits : FirstWaiter kernel sem w) : result.state w = .ready := by
  simp only [semaphorePost, semaphorePostRegion_eq] at returned
  rw [if_neg (Nat.not_le.mpr waits.2)] at returned
  obtain ⟨woken, wake, equal⟩ := Option.map_eq_some_iff.mp returned
  cases equal
  rcases wakeHead_cases wake with ⟨empty, _⟩ | ⟨first, ready, headAt, wakes, rfl⟩
  · rw [show (setCount kernel sem _).waitHead _ = kernel.waitHead (.semaphore sem) from rfl,
      waits.1] at empty
    cases empty
  · have isFirst : first = w := Option.some.inj (headAt.symm.trans waits.1)
    subst isFirst
    simp only [schedulerMarkReschedule]
    rw [(makeReady_onlyRings wakes).core]
    exact Function.update_self _ _ _

theorem post_elsewhere {status : Status} (coherent : Coherent kernel noWindow)
    (different : other ≠ sem)
    (returned : semaphorePost kernel (some other) = some (status, result))
    (waits : FirstWaiter kernel sem w) : FirstWaiter result sem w := by
  simp only [semaphorePost, semaphorePostRegion_eq] at returned
  split at returned
  · cases returned
    exact waits
  · rename_i room
    obtain ⟨woken, wake, equal⟩ := Option.map_eq_some_iff.mp returned
    cases equal
    obtain ⟨_, lists, waiting⟩ := coherent
    have raised : WaitCoherent (setCount kernel other ((kernel.semaphore other).count + 1)) lists
        noWindow := waiting.congr rfl rfl rfl rfl rfl rfl rfl
    have after := wakeHead_waits raised (fun first headAt => by
      rw [(raised.lists.queue _).head_eq] at headAt
      exact raised.mem_blocked (List.mem_of_head? headAt)) wake
    have elsewhere : WaitId.semaphore sem ≠ .semaphore other := by
      intro same
      cases same
      exact different rfl
    constructor
    · change woken.waitHead (.semaphore sem) = some w
      rw [(after.lists.queue (.semaphore sem)).head_eq, Function.update_of_ne elsewhere,
        ← (waiting.lists.queue (.semaphore sem)).head_eq]
      exact waits.1
    · have semaphore : woken.semaphore sem = kernel.semaphore sem := by
        rcases wakeHead_core wake with core | ⟨first, _, core⟩
        · rw [core]
          exact Function.update_of_ne (Ne.symm different) _ _
        · rw [core]
          exact Function.update_of_ne (Ne.symm different) _ _
      change (woken.semaphore sem).count < (woken.semaphore sem).maxCount
      rw [semaphore]
      exact waits.2

end Kernel

/-! ### The counter -/

section Counter

variable {timers result : Timers} {t : TimerAddr}

theorem insertSorted_tickCount (returned : insertSorted timers t = some result) :
    result.tickCount = timers.tickCount := by
  obtain ⟨found, _, rfl⟩ := Option.map_eq_some_iff.mp returned
  rfl

theorem swTimerStart_tickCount {target : Option TimerAddr} {ticks arg : Nat} {periodic : Bool}
    {cb : Option Nat} {status : Status}
    (returned : swTimerStart timers target ticks periodic cb arg = some (status, result)) :
    result.tickCount = timers.tickCount := by
  unfold swTimerStart at returned
  split at returned
  · split at returned
    · cases returned
      rfl
    · obtain ⟨armed, insertion, equal⟩ := Option.map_eq_some_iff.mp returned
      cases equal
      have kept := insertSorted_tickCount insertion
      exact kept
  · cases returned
    rfl

theorem swTimerStop_tickCount {target : Option TimerAddr}
    (returned : swTimerStop timers target = some result) :
    result.tickCount = timers.tickCount := by
  unfold swTimerStop at returned
  split at returned
  · cases returned
    rfl
  · obtain ⟨found, _, rfl⟩ := Option.map_eq_some_iff.mp returned
    split <;> rfl

theorem afterCallback_tickCount (returned : afterCallback timers t = some result) :
    result.tickCount = timers.tickCount := by
  unfold afterCallback at returned
  split at returned
  · have kept := insertSorted_tickCount returned
    exact kept
  · cases returned
    rfl

end Counter

/-! ### One step -/

section Steps

variable {signals : Nat → Nat → List Nat} {s after ended : TickState}
variable {system later : System} {sem : Nat} {w : Addr} {timer due : TimerAddr}

theorem step_tickCount {action : Action} (noTick : action.isTick = false)
    (taken : step system action = some later) :
    later.kernel.tickCount = system.kernel.tickCount := by
  cases step_moves taken with
  | stays => rfl
  | creates _ addition =>
      have frame := schedulerAddTask_onlyRings (Function.update_self _ _ _) addition
      simp only
      rw [frame.core]
      rfl
  | deletes _ _ _ detachment removal =>
      obtain ⟨reason, object, onMutex, fields, _⟩ := detachIfBlocked_core detachment
      have core := (schedulerRemoveTask_onlyRings removal).core.trans fields
      simp only
      rw [core]
  | calls _ returned =>
      simp only
      rw [apiCall_writes returned]
  | yields => rfl
  | ticks _ => cases noTick
  | @selects sel next returned =>
      obtain ⟨state, counter, fields⟩ := select_core system.kernel sel
      simp only
      rw [(schedulerGetNext_onlyRings returned).core, fields]
  | @dispatches t _ _ =>
      obtain ⟨state, counter, fields⟩ := select_core system.kernel t
      simp only
      rw [fields]

theorem timerStep_tickCount {machine changed : TimerMachine} {action : TimerAction}
    (noTick : action ≠ .tick) (taken : timerStep machine action = some changed) :
    changed.timers.tickCount = machine.timers.tickCount := by
  have enabled := timerStep_enabled taken
  cases action with
  | call call =>
      rw [timerStep_call enabled] at taken
      cases call with
      | startOnce t delayTicks cb arg =>
          obtain ⟨returned, start, rfl⟩ := Option.map_eq_some_iff.mp taken
          exact swTimerStart_tickCount start
      | startPeriodic t periodTicks cb arg =>
          obtain ⟨returned, start, rfl⟩ := Option.map_eq_some_iff.mp taken
          exact swTimerStart_tickCount start
      | stop t =>
          obtain ⟨stopped, stop, rfl⟩ := Option.map_eq_some_iff.mp taken
          exact swTimerStop_tickCount stop
  | tick => exact absurd rfl noTick
  | expire =>
      obtain ⟨draining, _⟩ := enabled
      simp only [timerStep, draining] at taken
      obtain ⟨head, _, rfl⟩ := Option.map_eq_some_iff.mp taken
      unfold TimerMachine.invoke
      split
      · rfl
      · simp only
        split <;> rfl
  | finish =>
      obtain ⟨head, calling⟩ := enabled
      simp only [timerStep, calling] at taken
      obtain ⟨timers, returned, rfl⟩ := Option.map_eq_some_iff.mp taken
      exact afterCallback_tickCount returned
  | leave =>
      obtain ⟨draining, noneDue⟩ := enabled
      simp only [timerStep, draining, if_pos noneDue] at taken
      cases taken
      rfl

theorem TickStarted.holds (started : TickStarted s) : TickHolds s :=
  ⟨started.system.systemCoherent, ⟨[], started.timers.law⟩, started.ticks⟩

theorem TickHolds.step {action : TickAction} (holds : TickHolds s)
    (allowed : TickAllowed s action) (taken : tickStep signals s action = some after) :
    TickHolds after := by
  obtain ⟨order, law⟩ := holds.timers
  cases action with
  | thread action =>
      simp only [tickStep] at taken
      split at taken
      · rename_i outside
        obtain ⟨later, stepped, rfl⟩ := Option.map_eq_some_iff.mp taken
        exact ⟨step_keeps holds.system allowed.1 stepped, holds.timers,
          (step_tickCount outside.2 stepped).trans holds.ticks⟩
      · cases taken
  | timer call =>
      obtain ⟨machine, stepped, rfl⟩ := Option.map_eq_some_iff.mp taken
      have kept := @TimerLaw.step s.machine machine order (.call call) law allowed trivial stepped
      exact ⟨holds.system, kept,
        holds.ticks.trans (timerStep_tickCount (by simp) stepped).symm⟩
  | enter =>
      obtain ⟨woken, wake, entered⟩ := Option.bind_eq_some_iff.mp taken
      obtain ⟨machine, stepped, rfl⟩ := Option.map_eq_some_iff.mp entered
      obtain ⟨again, wakeIs, coherent, wakes⟩ := wakeDelayed_keeps holds.system.coherent
      cases wake.symm.trans wakeIs
      have isUser : s.machine.mode = .user := timerStep_enabled stepped
      have kept := @TimerLaw.step s.machine machine order .tick law allowed trivial stepped
      refine ⟨holds.system.of_kernel coherent ?_ ?_, kept, ?_⟩
      · rw [wakes.fields]
        rfl
      · rw [wakes.fields]
        rfl
      · simp only [timerStep, isUser] at stepped
        cases stepped
        simp only
        rw [wakes.fields]
        simp only [rtosTickIncrement]
        rw [holds.ticks]
  | expire =>
      obtain ⟨due, _, expired⟩ := Option.bind_eq_some_iff.mp taken
      obtain ⟨machine, stepped, rfl⟩ := Option.map_eq_some_iff.mp expired
      have kept := @TimerLaw.step s.machine machine order .expire law trivial trivial stepped
      exact ⟨holds.system, kept, holds.ticks.trans (timerStep_tickCount (by simp) stepped).symm⟩
  | post =>
      simp only [tickStep] at taken
      split at taken
      · cases taken
      · rename_i sem later _
        obtain ⟨posted, post, rfl⟩ := Option.map_eq_some_iff.mp taken
        obtain ⟨status, result, again, coherent, quiet, ticks⟩ :=
          post_keeps holds.system.coherent sem
        cases post.symm.trans again
        exact ⟨holds.system.of_kernel coherent quiet.registry quiet.idle, holds.timers,
          ticks.trans holds.ticks⟩
  | finish =>
      simp only [tickStep] at taken
      split at taken
      · obtain ⟨machine, stepped, rfl⟩ := Option.map_eq_some_iff.mp taken
        exact ⟨holds.system, law.step allowed.1 allowed.2 stepped,
          holds.ticks.trans (timerStep_tickCount (by simp) stepped).symm⟩
      · cases taken
  | leave =>
      obtain ⟨machine, stepped, left⟩ := Option.bind_eq_some_iff.mp taken
      obtain ⟨sliced, slice, rfl⟩ := Option.map_eq_some_iff.mp left
      obtain ⟨again, sliceIs, coherent, core⟩ := slice_keeps holds.system.coherent
      cases slice.symm.trans sliceIs
      have kept := @TimerLaw.step s.machine machine order .leave law trivial trivial stepped
      refine ⟨holds.system.of_kernel coherent ?_ ?_, kept, ?_⟩
      · rw [core]
      · rw [core]
      · simp only
        rw [core]
        exact holds.ticks.trans (timerStep_tickCount (by simp) stepped).symm

end Steps

/-! ### The handler -/

section Handler

variable {signals : Nat → Nat → List Nat} {s after : TickState} {order : List TimerAddr}
variable {sem : Nat} {w : Addr} {timer due : TimerAddr} {armed : Arming}

/-- The task is READY, or it is the first to wait for what the callback of the timer posts
or is about to post in this tick. -/
def Signalled (signals : Nat → Nat → List Nat) (s : TickState) (timer : TimerAddr) (sem : Nat)
    (w : Addr) : Prop :=
  s.system.kernel.state w = .ready ∨
    FirstWaiter s.system.kernel sem w ∧
      ((s.machine.mode = .calling timer ∧ sem ∈ s.posts) ∨
        (s.machine.mode ≠ .calling timer ∧ ∃ armed, s.machine.arming timer = some armed ∧
          armed.due = some s.machine.timers.tickCount ∧
          sem ∈ signals armed.callback armed.arg))

theorem handle_step {action : TickAction} (isNext : s.next = some action)
    (taken : tickStep signals s action = some after) (fuel : Nat) :
    s.handle signals (fuel + 1) = after.handle signals fuel := by
  rw [TickState.handle, isNext]
  simp only [taken, Option.bind_some]

def TickState.called (signals : Nat → Nat → List Nat) (s : TickState) (due : TimerAddr)
    (armed : Arming) : TickState :=
  { s with
    machine := s.machine.expired due armed
    posts := signals armed.callback armed.arg }

theorem expire_step (law : TimerLaw s.machine order) (draining : s.machine.mode = .draining)
    (isDue : headDue s.machine.timers = some due) (isArmed : s.machine.arming due = some armed) :
    tickStep signals s .expire = some (s.called signals due armed) := by
  obtain ⟨_, again, _, isAgain, carries, _⟩ := law.head_due draining isDue
  cases isArmed.symm.trans isAgain
  obtain ⟨_, other, _, isOther, _, stepped, _⟩ := expire_law law draining isDue
  cases isArmed.symm.trans isOther
  simp only [tickStep, isDue, Option.bind_some, stepped, Option.map_some, Timers.signalled,
    carries.callback, carries.arg]
  rfl

theorem Signalled.called (signalled : Signalled signals s timer sem w)
    (draining : s.machine.mode = .draining) (isArmed : s.machine.arming due = some armed) :
    Signalled signals (s.called signals due armed) timer sem w := by
  rcases signalled with ready | ⟨waits, ⟨calling, _⟩ | ⟨_, pending, isPending, isNow, posts⟩⟩
  · exact Or.inl ready
  · rw [draining] at calling
    cases calling
  · refine Or.inr ⟨waits, ?_⟩
    by_cases same : timer = due
    · subst timer
      cases isArmed.symm.trans isPending
      exact Or.inl ⟨rfl, posts⟩
    · refine Or.inr ⟨?_, pending, ?_, isNow, posts⟩
      · intro calling
        cases calling
        exact same rfl
      · exact (Function.update_of_ne same _ _).trans isPending

theorem Signalled.post {system : System} {other : Nat} {later : List Nat} {status : Status}
    (signalled : Signalled signals s timer sem w) (coherent : Coherent s.system.kernel noWindow)
    (next : s.posts = other :: later)
    (posted : semaphorePost s.system.kernel (some other) = some (status, system.kernel)) :
    Signalled signals { s with system := system, posts := later } timer sem w := by
  obtain ⟨_, result, again, _, quiet, _⟩ := post_keeps coherent other
  cases posted.symm.trans again
  rcases signalled with ready | ⟨waits, course⟩
  · exact Or.inl (quiet.stays_ready ready)
  · by_cases same : other = sem
    · subst other
      exact Or.inl (post_wakes posted waits)
    · refine Or.inr ⟨post_elsewhere coherent same posted waits, ?_⟩
      rcases course with ⟨calling, member⟩ | elsewhere
      · rw [next] at member
        exact Or.inl ⟨calling, (List.mem_cons.mp member).resolve_left (Ne.symm same)⟩
      · exact Or.inr elsewhere

theorem posts_run (holds : TickHolds s) (calling : s.machine.mode = .calling due) :
    ∃ system, (∀ fuel, s.handle signals (fuel + s.posts.length) =
        TickState.handle signals fuel { s with system := system, posts := [] }) ∧
      TickHolds { s with system := system, posts := [] } ∧
      ∀ timer sem w, Signalled signals s timer sem w →
        Signalled signals { s with system := system, posts := [] } timer sem w := by
  induction remaining : s.posts generalizing s with
  | nil =>
      have same : { s with system := s.system, posts := [] } = s := by rw [← remaining]
      refine ⟨s.system, fun fuel => by rw [same]; rfl, ?_, fun timer sem w signalled => ?_⟩
      · rw [same]
        exact holds
      · rw [same]
        exact signalled
  | cons other later ih =>
      obtain ⟨status, result, post, _⟩ := post_keeps holds.system.coherent other
      have taken : tickStep signals s .post = some
          { s with system := { s.system with kernel := result }, posts := later } := by
        simp only [tickStep, remaining, post, Option.map_some]
      have isNext : s.next = some .post := by
        simp [TickState.next, calling, remaining]
      have onward := @TickHolds.step signals s _ .post holds trivial taken
      obtain ⟨system, runs, ends, keeps⟩ :=
        @ih { s with system := { s.system with kernel := result }, posts := later } onward calling
          rfl
      refine ⟨system, fun fuel => ?_, ends, fun timer sem w signalled => ?_⟩
      · rw [List.length_cons, ← Nat.add_assoc, handle_step isNext taken]
        exact runs fuel
      · exact keeps timer sem w (@Signalled.post signals s sem w timer
          { s.system with kernel := result } other later status signalled holds.system.coherent
          remaining post)

theorem Signalled.finished {machine : TimerMachine} {system : System}
    (signalled : Signalled signals
      { s with machine := s.machine.expired due armed, system := system, posts := [] } timer sem w)
    (mode : machine.mode = .draining)
    (arming : machine.arming = (s.machine.expired due armed).arming)
    (ticks : machine.timers.tickCount = s.machine.timers.tickCount) :
    Signalled signals { s with machine := machine, system := system, posts := [] } timer sem w := by
  rcases signalled with ready | ⟨waits, ⟨_, none⟩ | ⟨_, pending, isPending, isNow, posts⟩⟩
  · exact Or.inl ready
  · exact absurd none List.not_mem_nil
  · refine Or.inr ⟨waits, Or.inr ⟨?_, pending, ?_, ?_, posts⟩⟩
    · rw [mode]
      exact fun calling => by cases calling
    · rw [arming]
      exact isPending
    · rw [ticks]
      exact isNow

theorem served_fewer {machine : TimerMachine} {timers : Timers} {added : List TimerAddr}
    (law : TimerLaw machine order) (draining : machine.mode = .draining)
    (keeps : TimerLaw (machine.served due armed timers) added)
    (ticks : timers.tickCount = machine.timers.tickCount) (member : due ∈ dueNow machine order)
    (later : (armed.invoked machine.timers.tickCount).due ≠ some machine.timers.tickCount) :
    (dueNow (machine.served due armed timers) added).length < (dueNow machine order).length := by
  have fewer : dueNow (machine.served due armed timers) added ⊆
      (dueNow machine order).erase due := by
    intro u inside
    obtain ⟨other, isOther, otherDue⟩ := (keeps.mem_dueNow_iff rfl).mp inside
    obtain ⟨different, wasArmed, wasDue⟩ := served_due ticks later isOther otherDue
    apply (List.mem_erase_of_ne different).mpr
    exact (law.mem_dueNow_iff draining).mpr ⟨other, wasArmed, wasDue⟩
  have distinct : (dueNow (machine.served due armed timers) added).Nodup :=
    keeps.ordered.path.nodup.filter _
  have shorter := (distinct.subperm fewer).length_le
  rw [List.length_erase_of_mem member] at shorter
  have positive := List.length_pos_of_mem member
  omega

/-- One pass of the loop: a callback is called, posts what it has to post, and returns. -/
theorem pass_run (holds : TickHolds s) (law : TimerLaw s.machine order)
    (draining : s.machine.mode = .draining) (isDue : headDue s.machine.timers = some due)
    (below : RearmsBelow s.machine) :
    ∃ steps added, ∃ later : TickState,
      (∀ fuel, s.handle signals (fuel + steps) = later.handle signals fuel) ∧
      TickHolds later ∧ TimerLaw later.machine added ∧ later.machine.mode = .draining ∧
      RearmsBelow later.machine ∧
      later.machine.timers.tickCount = s.machine.timers.tickCount ∧
      (dueNow later.machine added).length < (dueNow s.machine order).length ∧
      ∀ timer sem w, Signalled signals s timer sem w → Signalled signals later timer sem w := by
  obtain ⟨armed, timers, added, isArmed, expires, finishes, keeps, ticks, member, notAgain⟩ :=
    pass_law law draining isDue below
  have expired : tickStep signals s .expire = some (s.called signals due armed) :=
    expire_step law draining isDue isArmed
  have expireNext : s.next = some .expire := by
    simp [TickState.next, draining, isDue]
  have called := @TickHolds.step signals s _ .expire holds trivial expired
  obtain ⟨system, runs, posted, posting⟩ := posts_run called rfl
  have finished : tickStep signals { s.called signals due armed with system := system, posts := [] }
      .finish = some
        { s with machine := s.machine.served due armed timers, system := system, posts := [] } := by
    simp only [tickStep, if_true, TickState.called, finishes, Option.map_some]
  have finishNext : TickState.next
      { s.called signals due armed with system := system, posts := [] } = some .finish := by
    simp [TickState.next, TickState.called, TimerMachine.expired]
  refine ⟨(s.called signals due armed).posts.length + 2, added,
    { s with machine := s.machine.served due armed timers, system := system, posts := [] },
    fun fuel => ?_, ⟨posted.system, ⟨added, keeps⟩, ?_⟩, keeps, rfl, ?_, ticks,
    served_fewer law draining keeps ticks member notAgain, fun timer sem w signalled => ?_⟩
  · rw [show fuel + ((s.called signals due armed).posts.length + 2) =
      (fuel + 1) + (s.called signals due armed).posts.length + 1 by omega,
      handle_step expireNext expired, runs, handle_step finishNext finished]
  · exact posted.ticks.trans ticks.symm
  · intro u other isOther periodic otherDue
    obtain ⟨_, wasArmed, wasDue⟩ := served_due ticks notAgain isOther otherDue
    change timers.tickCount + _ < _
    rw [ticks]
    exact below u other wasArmed periodic wasDue
  · exact (posting timer sem w (signalled.called draining isArmed)).finished rfl rfl ticks

theorem leave_run (holds : TickHolds s) (law : TimerLaw s.machine order)
    (draining : s.machine.mode = .draining) (noneDue : headDue s.machine.timers = none) :
    ∃ ended : TickState, tickStep signals s .leave = some ended ∧ ended.machine.mode = .user ∧
      ended.machine.timers.tickCount = s.machine.timers.tickCount ∧
      ended.system.kernel.pendSv = true ∧
      ∀ timer sem w, Signalled signals s timer sem w →
        ended.system.kernel.state w = .ready := by
  obtain ⟨sliced, slice, _, core⟩ := slice_keeps holds.system.coherent
  refine ⟨{ s with
      system := { s.system with kernel := schedulerMarkReschedule sliced }
      machine := { s.machine with mode := .user } }, ?_, rfl, rfl, rfl,
    fun timer sem w signalled => ?_⟩
  · simp only [tickStep, timerStep, draining, if_pos noneDue, Option.bind_some, slice,
      Option.map_some]
  · rcases signalled with ready | ⟨_, ⟨calling, _⟩ | ⟨elsewhere, pending, isPending, isNow, _⟩⟩
    · simp only
      rw [core]
      exact ready
    · rw [draining] at calling
      cases calling
    · obtain ⟨member, _, expiry⟩ := law.listed_of_due isPending isNow elsewhere
      have ahead := (leave_law law draining noneDue).ahead timer member
      simp only [TimerMachine.horizon] at ahead
      omega

/-- The loop comes to its end, whatever the callbacks post. -/
theorem handle_ends (holds : TickHolds s) (law : TimerLaw s.machine order)
    (draining : s.machine.mode = .draining) (below : RearmsBelow s.machine) :
    ∃ fuel, ∃ ended : TickState, s.handle signals fuel = some ended ∧
      ended.machine.mode = .user ∧ TickHolds ended ∧
      ended.machine.timers.tickCount = s.machine.timers.tickCount ∧
      ended.system.kernel.pendSv = true ∧
      ∀ timer sem w, Signalled signals s timer sem w →
        ended.system.kernel.state w = .ready := by
  -- on the number of timers of the list that expire now
  induction pending : (dueNow s.machine order).length using Nat.strong_induction_on
    generalizing s order with
  | _ count ih =>
      cases isDue : headDue s.machine.timers with
      | none =>
          obtain ⟨ended, left, isUser, ticks, pendSv, awake⟩ :=
            leave_run holds law draining isDue
          have isNext : s.next = some .leave := by
            simp [TickState.next, draining, isDue]
          refine ⟨1, ended, ?_, isUser, @TickHolds.step signals s _ .leave holds trivial left,
            ticks, pendSv, awake⟩
          rw [show 1 = 0 + 1 from rfl, handle_step isNext left, TickState.handle, if_pos isUser]
      | some due =>
          obtain ⟨steps, added, later, runs, onward, keeps, still, stillBelow, ticks, fewer,
            signalled⟩ := pass_run holds law draining isDue below
          obtain ⟨fuel, ended, ends, isUser, endHolds, endTicks, pendSv, awake⟩ :=
            ih _ (by omega) onward keeps still stillBelow rfl
          exact ⟨fuel + steps, ended, (runs fuel).trans ends, isUser, endHolds,
            endTicks.trans ticks, pendSv,
            fun timer sem w before => awake timer sem w (signalled timer sem w before)⟩

end Handler

/-! ### Runs -/

section Runs

variable {signals : Nat → Nat → List Nat} {s : TickState} {order : List TimerAddr}

theorem Reachable.tickHolds (reached : Reachable TickStarted (tickStep signals) TickAllowed s) :
    TickHolds s := by
  induction reached with
  | initial started => exact started.holds
  | next _ allowed taken ih => exact ih.step allowed taken

def tickCheck (s : TickState) : TickAction → Bool
  | .thread action => orderlyCheck s.system action
  | .timer call => belowCheck s.machine (.call call)
  | .enter => belowCheck s.machine .tick
  | .finish => belowCheck s.machine .finish && leavesCheck s.machine .finish
  | _ => true

theorem tickAllowed_of_check (s : TickState) (action : TickAction)
    (checked : tickCheck s action = true) : TickAllowed s action := by
  cases action with
  | thread action => exact orderly_of_check s.system action checked
  | timer call =>
      have fits : belowCheck s.machine (.call call) = true := checked
      exact staysBelow_of_check fits
  | enter =>
      have fits : belowCheck s.machine .tick = true := checked
      exact staysBelow_of_check fits
  | finish =>
      have both := Bool.and_eq_true_iff.mp checked
      exact ⟨staysBelow_of_check both.1, leavesOwnTimer_of_check both.2⟩
  | expire => trivial
  | post => trivial
  | leave => trivial

def startedTick : TickState where
  system := startedSystem
  machine := initialTimers
  posts := []

theorem tickStarted_startedTick : TickStarted startedTick :=
  ⟨started_startedSystem, timersInitialised_initialTimers, by decide +kernel⟩

def postsArgument (_ arg : Nat) : List Nat := [arg]

def waitForTimer : List TickAction :=
  [.thread (.create (some 0) 100 256 (some 1) (some 0)),
    .timer (.startOnce (some 7) 1 (some 3) 4), .thread .getNext, .thread (.call (.wait 4 0))]

/-- Between the ticks and within the handler the kernel is in order, both counters agree, and
between the ticks every callback has been called as asked. -/
theorem handler_keeps_time
    (reached : Reachable TickStarted (tickStep signals) TickAllowed s) :
    SystemCoherent s.system ∧ TimersOnTime s.machine ∧
      s.system.kernel.tickCount = s.machine.timers.tickCount := by
  have holds := Reachable.tickHolds reached
  obtain ⟨order, law⟩ := holds.timers
  exact ⟨holds.system, law.onTime, holds.ticks⟩

theorem handler_keeps_time_after_post :
    ∃ s : TickState, s.system.kernel.tickCount = 1 ∧ s.system.kernel.state 1 = .ready ∧
      SystemCoherent s.system ∧ TimersOnTime s.machine ∧
      s.system.kernel.tickCount = s.machine.timers.tickCount := by
  obtain ⟨s, reached, found⟩ :=
    @exists_reachable_of_run TickState TickAction TickStarted (tickStep postsArgument) TickAllowed
      tickCheck
      (fun s => decide (s.system.kernel.tickCount = 1 ∧ s.system.kernel.state 1 = .ready))
      tickAllowed_of_check (waitForTimer ++ [.enter, .expire, .post, .finish, .leave])
      startedTick tickStarted_startedTick (by decide +kernel)
  obtain ⟨ticks, ready⟩ := of_decide_eq_true found
  exact ⟨s, ticks, ready, handler_keeps_time reached⟩

/-- The next expiry of every periodic timer that expires at the next tick does not wrap. -/
def RearmsAhead (timers : Timers) : Prop :=
  ∀ t, Reaches timers.next timers.timerList t → timers.periodic t = true →
    timers.expiryTick t = timers.tickCount + 1 →
    timers.tickCount + 1 + timers.periodTicks t < uint32Size

theorem enter_run (holds : TickHolds s) (law : TimerLaw s.machine order)
    (isUser : s.machine.mode = .user) (below : s.machine.timers.tickCount + 1 < uint32Size)
    (rearms : RearmsAhead s.machine.timers) :
    ∃ entered : TickState, tickStep signals s .enter = some entered ∧ TickHolds entered ∧
      TimerLaw entered.machine order ∧ entered.machine.mode = .draining ∧
      RearmsBelow entered.machine ∧
      entered.machine.timers.tickCount = s.machine.timers.tickCount + 1 ∧
      ∀ timer sem w, timer ∈ order →
        s.machine.timers.expiryTick timer = s.machine.timers.tickCount + 1 →
        sem ∈ s.machine.timers.signalled signals timer →
        FirstWaiter s.system.kernel sem w → Signalled signals entered timer sem w := by
  obtain ⟨woken, wake, _, _⟩ := wakeDelayed_keeps holds.system.coherent
  have ticked := tick_law law isUser below
  have taken : tickStep signals s .enter = some
      { s with
        system := { s.system with kernel := woken }
        machine := { s.machine with
          timers := { s.machine.timers with
            tickCount := (s.machine.timers.tickCount + 1) % uint32Size }
          mode := .draining } } := by
    simp only [tickStep, wake, Option.bind_some, timerStep, isUser, Option.map_some]
  have counter := Nat.mod_eq_of_lt below
  refine ⟨_, taken, @TickHolds.step signals s _ .enter holds below taken, ticked, rfl, ?_,
    counter, ?_⟩
  · intro t armed isArmed periodic isDue
    simp only [counter] at isDue ⊢
    obtain ⟨member, carries, isNext⟩ := law.listed_of_due isArmed isDue (by simp [isUser])
    have fits := rearms t (law.ordered.path.reaches member) (carries.periodic.trans periodic)
      isNext
    rw [carries.period periodic] at fits
    exact fits
  · intro timer sem w member expires posts waits
    rcases wakeDelayed_firstWaiter holds.system.coherent wake waits with ready | still
    · exact Or.inl ready
    · obtain ⟨armed, isArmed, carries, isDue⟩ := law.listed timer member
      refine Or.inr ⟨still, Or.inr ⟨by simp, armed, isArmed, ?_, ?_⟩⟩
      · rw [isDue, expires]
        exact congrArg some counter.symm
      · rw [Timers.signalled, carries.callback, carries.arg] at posts
        exact posts

/-- The handler of every tick comes to its end, and then every task is READY that was the
first to wait for a semaphore posted by the callback of a timer that expires at the tick. -/
theorem handler_delivers_signals
    (reached : Reachable TickStarted (tickStep signals) TickAllowed s)
    (isUser : s.machine.mode = .user) (below : s.machine.timers.tickCount + 1 < uint32Size)
    (rearms : RearmsAhead s.machine.timers) :
    ∃ fuel, ∃ ended : TickState, s.sysTick signals fuel = some ended ∧
      ended.machine.mode = .user ∧
      ended.system.kernel.tickCount = s.system.kernel.tickCount + 1 ∧
      ended.system.kernel.pendSv = true ∧ SystemCoherent ended.system ∧
      TimersOnTime ended.machine ∧
      ∀ timer sem w, Reaches s.machine.timers.next s.machine.timers.timerList timer →
        s.machine.timers.expiryTick timer = s.machine.timers.tickCount + 1 →
        sem ∈ s.machine.timers.signalled signals timer →
        FirstWaiter s.system.kernel sem w → ended.system.kernel.state w = .ready := by
  have holds := Reachable.tickHolds reached
  obtain ⟨order, law⟩ := holds.timers
  obtain ⟨entered, enters, onward, entersLaw, draining, stays, ticks, signalled⟩ :=
    enter_run holds law isUser below rearms
  obtain ⟨fuel, ended, ends, endsUser, endHolds, endTicks, pendSv, awake⟩ :=
    handle_ends onward entersLaw draining stays
  obtain ⟨last, lastLaw⟩ := endHolds.timers
  refine ⟨fuel, ended, ?_, endsUser, ?_, pendSv, endHolds.system, lastLaw.onTime, ?_⟩
  · rw [TickState.sysTick, enters, Option.bind_some, ends]
  · rw [endHolds.ticks, endTicks, ticks, holds.ticks]
  · intro timer sem w listed expires posts waits
    rw [law.ordered.path.reaches_iff] at listed
    exact awake timer sem w (signalled timer sem w listed expires posts waits)

theorem handler_delivers_to_waiter :
    ∃ s ended : TickState, ∃ fuel, s.system.kernel.state 1 = .blocked ∧
      s.sysTick postsArgument fuel = some ended ∧ ended.system.kernel.state 1 = .ready := by
  obtain ⟨s, reached, found⟩ :=
    @exists_reachable_of_run TickState TickAction TickStarted (tickStep postsArgument) TickAllowed
      tickCheck
      (fun s => decide (s.machine.mode = .user ∧ s.machine.timers.tickCount = 0 ∧
        s.machine.timers.timerList = some 7 ∧ s.machine.timers.next 7 = none ∧
        s.machine.timers.periodic 7 = false ∧ s.machine.timers.expiryTick 7 = 1 ∧
        s.machine.timers.signalled postsArgument 7 = [4] ∧ s.system.kernel.state 1 = .blocked ∧
        s.system.kernel.waitHead (.semaphore 4) = some 1 ∧
        (s.system.kernel.semaphore 4).count < (s.system.kernel.semaphore 4).maxCount))
      tickAllowed_of_check waitForTimer startedTick tickStarted_startedTick (by decide +kernel)
  obtain ⟨isUser, ticks, head, last, oneShot, expires, posts, blocked, waits, room⟩ :=
    of_decide_eq_true found
  have path : Path s.machine.timers.next s.machine.timers.timerList [7] none := ⟨head, last⟩
  have rearms : RearmsAhead s.machine.timers := by
    intro t listed periodic
    rw [path.reaches_iff, List.mem_singleton] at listed
    rw [listed, oneShot] at periodic
    cases periodic
  obtain ⟨fuel, ended, handled, _, _, _, _, _, delivers⟩ :=
    handler_delivers_signals reached isUser (by rw [ticks]; decide) rearms
  refine ⟨s, ended, fuel, blocked, handled, delivers 7 4 1 ?_ ?_ ?_ ⟨waits, room⟩⟩
  · exact path.reaches List.mem_cons_self
  · rw [expires, ticks]
  · rw [posts]
    exact List.mem_cons_self

end Runs

end MicrokernelRtos
