/-
Runs in which the interrupt-disabled regions are the steps.

Every task has a place in the call it is making.  Between two places a tick may
fall, and a context switch to another task, which goes on from its own place.
The log keeps what the calls returned, the newest first.
-/

import MicrokernelRtos.Library.TransitionSystem
import MicrokernelRtos.Coherence.Boot

namespace MicrokernelRtos

open Transition

/-- Where a task is in its call. -/
inductive Pc where
  /-- in the code of the application -/
  | user
  /-- before the `cpsid i` of the region of the call -/
  | entering (call : Call)
  /-- behind that region, at the start of `rtos_block_current` -/
  | enqueued (call : Call)
  /-- before the `cpsid i` of `rtos_block_current` -/
  | armed (call : Call)
  /-- in the wait loop of `rtos_block_current` -/
  | blocked (call : Call)

structure Event where
  task : Addr
  call : Call
  status : Status
  out : List UInt8

structure Machine where
  kernel : Kernel
  pc : Addr → Pc
  log : List Event

inductive RegionAction where
  | create (taskFunc : Option Nat) (priority stackSize : Nat) (tcbBlock stackBlock : Option Addr)
  | delete (tcb : Addr)
  | call (call : Call)
  | advance
  | sysTick
  | pendSV
  | dispatch (t : Addr)

def Machine.finish (machine : Machine) (self : Addr) (call : Call) (status : Status)
    (out : List UInt8) (kernel : Kernel) : Machine where
  kernel := kernel
  pc := Function.update machine.pc self .user
  log := { task := self, call := call, status := status, out := out } :: machine.log

def Machine.move (machine : Machine) (self : Addr) (place : Pc) (kernel : Kernel) : Machine :=
  { machine with kernel := kernel, pc := Function.update machine.pc self place }

def Machine.leave (machine : Machine) (self : Addr) (call : Call) (outcome : Outcome)
    (kernel : Kernel) : Machine :=
  match outcome with
  | .returns status out => machine.finish self call status out kernel
  | .blocks => machine.move self (.enqueued call) kernel

def Machine.enter (machine : Machine) (self : Addr) (call : Call) : Machine :=
  match callRefused machine.kernel self call with
  | some status => machine.finish self call status [] machine.kernel
  | none => machine.move self (.entering call) machine.kernel

/-- The lines behind `rtos_block_current`: a delay returns its result, the other
calls return a timeout and otherwise try again. -/
def Machine.wakeUp (machine : Machine) (self : Addr) (call : Call) : Machine :=
  match call with
  | .delay _ => machine.finish self call (machine.kernel.blockWakeStatus self) [] machine.kernel
  | _ =>
      if machine.kernel.blockWakeStatus self = .errTimeout then
        machine.finish self call .errTimeout [] machine.kernel
      else machine.move self (.entering call) machine.kernel

/-- The task runs to its next place.  In the wait loop it stays until its state
has changed. -/
def Machine.advance (machine : Machine) (self : Addr) : Option Machine :=
  match machine.pc self with
  | .user => none
  | .entering call =>
      (callRegion machine.kernel self call).map fun passed =>
        machine.leave self call passed.1 passed.2
  | .enqueued call =>
      some (machine.move self (.armed call)
        (blockFields machine.kernel self call.reason call.object))
  | .armed call =>
      (blockRegion machine.kernel self call.timeoutTicks).map fun blocked =>
        machine.move self (.blocked call) blocked
  | .blocked call =>
      if machine.kernel.state self = .blocked then none else some (machine.wakeUp self call)

/-- Code of the application runs: `main` before the scheduler has started, or a
task other than idle outside its calls. -/
def Machine.inUser (machine : Machine) : Bool :=
  match machine.kernel.currentTcb with
  | none => true
  | some self =>
      decide (some self ≠ machine.kernel.idleTcb) &&
        match machine.pc self with
        | .user => true
        | _ => false

def Machine.heapFresh (machine : Machine) (block : Option Addr) : Bool :=
  match block with
  | none => true
  | some tcb => decide (tcb ∉ machine.kernel.taskRegistry) &&
      decide (tcb < machine.kernel.config.poolSize)

def regionStep (machine : Machine) : RegionAction → Option Machine
  | .create taskFunc priority stackSize tcbBlock stackBlock =>
      if machine.inUser && machine.heapFresh tcbBlock then
        (taskCreate machine.kernel taskFunc priority stackSize tcbBlock stackBlock).map
          fun created =>
            match created.1 with
            | some tcb => machine.move tcb .user created.2
            | none => { machine with kernel := created.2 }
      else none
  | .delete tcb =>
      if machine.inUser && decide (tcb ∈ machine.kernel.taskRegistry) then
        (taskDelete machine.kernel (some tcb)).map fun deleted =>
          if deleted.1 = .ok then machine.move tcb .user deleted.2
          else { machine with kernel := deleted.2 }
      else none
  | .call call =>
      if machine.inUser then machine.kernel.currentTcb.map fun self => machine.enter self call
      else none
  | .advance => machine.kernel.currentTcb.bind machine.advance
  | .sysTick => (sysTickHandler machine.kernel).map fun ticked => { machine with kernel := ticked }
  | .pendSV => (schedulerGetNext machine.kernel).map fun next => { machine with kernel := next.2 }
  | .dispatch t =>
      if t ∈ machine.kernel.taskRegistry ∧ machine.kernel.state t ≠ .blocked then
        some { machine with kernel := dispatch (preemptCurrent machine.kernel) t }
      else none

/-- After `task_init`: no call has been made. -/
structure PoweredUp (machine : Machine) : Prop where
  booted : Booted machine.kernel
  pc : machine.pc = fun _ => .user
  log : machine.log = []

def poweredMachine : Machine where
  kernel := bootedKernel
  pc := fun _ => .user
  log := []

theorem poweredUp_poweredMachine : PoweredUp poweredMachine :=
  ⟨booted_bootedKernel, rfl, rfl⟩

/-! ### What a step can be -/

/-- The kernel of a step that moves no task: creation and deletion that were
refused, ticks and selections. -/
inductive Background (before : Kernel) : RegionAction → Kernel → Prop where
  | refused (action : RegionAction) : Background before action before
  | tick {after : Kernel} (ticked : sysTickHandler before = some after) :
      Background before .sysTick after
  | select {sel : Addr} {after : Kernel} (selected : schedulerGetNext before = some (sel, after)) :
      Background before .pendSV after
  | dispatch (t : Addr) (live : t ∈ before.taskRegistry) (awake : before.state t ≠ .blocked) :
      Background before (.dispatch t) (dispatch (preemptCurrent before) t)

theorem regionStep_cases {machine after : Machine} {action : RegionAction}
    (taken : regionStep machine action = some after) :
    (∃ kernel, Background machine.kernel action kernel ∧
      after = { machine with kernel := kernel }) ∨
    (∃ tcb priority added, machine.inUser = true ∧ tcb ∉ machine.kernel.taskRegistry ∧
      tcb < machine.kernel.config.poolSize ∧
      schedulerAddTask (freshTask machine.kernel tcb priority (prioBucket priority)) (some tcb) =
        some (.ok, added) ∧
      after = machine.move tcb .user { added with taskRegistry := added.taskRegistry ++ [tcb] }) ∨
    (∃ tcb kernel, action = .delete tcb ∧ machine.inUser = true ∧
      tcb ∈ machine.kernel.taskRegistry ∧
      taskDelete machine.kernel (some tcb) = some (.ok, kernel) ∧
      after = machine.move tcb .user kernel) ∨
    (∃ self call, machine.kernel.currentTcb = some self ∧ machine.inUser = true ∧
      after = machine.enter self call) ∨
    (∃ self, action = .advance ∧ machine.kernel.currentTcb = some self ∧
      machine.advance self = some after) := by
  cases action with
  | create taskFunc priority stackSize tcbBlock stackBlock =>
      simp only [regionStep] at taken
      split at taken
      · rename_i guards
        rw [Bool.and_eq_true] at guards
        obtain ⟨⟨handle, kernel⟩, creation, equal⟩ := Option.map_eq_some_iff.mp taken
        rcases taskCreate_cases creation with
          ⟨rfl, rfl⟩ | ⟨tcb, added, isBlock, rfl, _, addition, rfl⟩
        · cases equal
          exact Or.inl ⟨_, .refused _, rfl⟩
        · cases equal
          have fresh := guards.2
          rw [isBlock] at fresh
          simp only [Machine.heapFresh, Bool.and_eq_true, decide_eq_true_eq] at fresh
          exact Or.inr (Or.inl ⟨tcb, priority, added, guards.1, fresh.1, fresh.2, addition, rfl⟩)
      · cases taken
  | delete tcb =>
      simp only [regionStep] at taken
      split at taken
      · rename_i guards
        rw [Bool.and_eq_true, decide_eq_true_eq] at guards
        obtain ⟨⟨status, kernel⟩, deletion, equal⟩ := Option.map_eq_some_iff.mp taken
        dsimp only at equal
        split at equal
        · rename_i isOk
          subst isOk
          cases equal
          exact Or.inr (Or.inr (Or.inl ⟨tcb, kernel, rfl, guards.1, guards.2, deletion, rfl⟩))
        · rename_i notOk
          cases equal
          rcases taskDelete_cases deletion with ⟨_, rfl⟩ | ⟨t, detached, removed, _, isOk, _⟩
          · exact Or.inl ⟨_, .refused _, rfl⟩
          · exact absurd isOk notOk
      · cases taken
  | call call =>
      simp only [regionStep] at taken
      split at taken
      · rename_i user
        obtain ⟨self, isCurrent, rfl⟩ := Option.map_eq_some_iff.mp taken
        exact Or.inr (Or.inr (Or.inr (Or.inl ⟨self, call, isCurrent, user, rfl⟩)))
      · cases taken
  | advance =>
      obtain ⟨self, isCurrent, moves⟩ := Option.bind_eq_some_iff.mp taken
      exact Or.inr (Or.inr (Or.inr (Or.inr ⟨self, rfl, isCurrent, moves⟩)))
  | sysTick =>
      obtain ⟨ticked, tick, rfl⟩ := Option.map_eq_some_iff.mp taken
      exact Or.inl ⟨ticked, .tick tick, rfl⟩
  | pendSV =>
      obtain ⟨⟨sel, next⟩, select, rfl⟩ := Option.map_eq_some_iff.mp taken
      exact Or.inl ⟨next, .select select, rfl⟩
  | dispatch t =>
      simp only [regionStep] at taken
      split at taken
      · rename_i runnable
        cases taken
        exact Or.inl ⟨_, .dispatch t runnable.1 runnable.2, rfl⟩
      · cases taken

theorem advance_cases {machine after : Machine} {self : Addr}
    (moves : machine.advance self = some after) :
    (∃ call outcome kernel, machine.pc self = .entering call ∧
      callRegion machine.kernel self call = some (outcome, kernel) ∧
      after = machine.leave self call outcome kernel) ∨
    (∃ call, machine.pc self = .enqueued call ∧
      after = machine.move self (.armed call)
        (blockFields machine.kernel self call.reason call.object)) ∨
    (∃ call kernel, machine.pc self = .armed call ∧
      blockRegion machine.kernel self call.timeoutTicks = some kernel ∧
      after = machine.move self (.blocked call) kernel) ∨
    (∃ call, machine.pc self = .blocked call ∧ machine.kernel.state self ≠ .blocked ∧
      after = machine.wakeUp self call) := by
  unfold Machine.advance at moves
  split at moves
  · cases moves
  · rename_i call place
    obtain ⟨⟨outcome, kernel⟩, region, rfl⟩ := Option.map_eq_some_iff.mp moves
    exact Or.inl ⟨call, outcome, kernel, place, region, rfl⟩
  · rename_i call place
    cases moves
    exact Or.inr (Or.inl ⟨call, place, rfl⟩)
  · rename_i call place
    obtain ⟨blocked, region, rfl⟩ := Option.map_eq_some_iff.mp moves
    exact Or.inr (Or.inr (Or.inl ⟨call, blocked, place, region, rfl⟩))
  · rename_i call place
    split at moves
    · cases moves
    · rename_i awake
      cases moves
      exact Or.inr (Or.inr (Or.inr ⟨call, place, awake, rfl⟩))

theorem wakeUp_cases (machine : Machine) (self : Addr) (call : Call) :
    (∃ ticks status, call = .delay ticks ∧
      machine.wakeUp self call = machine.finish self call status [] machine.kernel) ∨
    (machine.kernel.blockWakeStatus self = .errTimeout ∧
      machine.wakeUp self call = machine.finish self call .errTimeout [] machine.kernel) ∨
    (machine.kernel.blockWakeStatus self ≠ .errTimeout ∧
      machine.wakeUp self call = machine.move self (.entering call) machine.kernel) := by
  by_cases expired : machine.kernel.blockWakeStatus self = .errTimeout
  · cases call with
    | delay ticks => exact Or.inl ⟨ticks, _, rfl, rfl⟩
    | _ => exact Or.inr (Or.inl ⟨expired, by simp only [Machine.wakeUp, expired, if_true]⟩)
  · cases call with
    | delay ticks => exact Or.inl ⟨ticks, _, rfl, rfl⟩
    | _ => exact Or.inr (Or.inr ⟨expired, by simp only [Machine.wakeUp, expired, if_false]⟩)

theorem wakeUp_moves (machine : Machine) (self : Addr) (call : Call) :
    (machine.wakeUp self call).kernel = machine.kernel ∧
      ∃ place, (machine.wakeUp self call).pc = Function.update machine.pc self place := by
  rcases wakeUp_cases machine self call with ⟨_, _, _, same⟩ | ⟨_, same⟩ | ⟨_, same⟩
  · rw [same]
    exact ⟨rfl, _, rfl⟩
  · rw [same]
    exact ⟨rfl, _, rfl⟩
  · rw [same]
    exact ⟨rfl, _, rfl⟩

theorem advance_pc {machine after : Machine} {self : Addr}
    (moves : machine.advance self = some after) :
    ∃ place, after.pc = Function.update machine.pc self place := by
  rcases advance_cases moves with ⟨call, outcome, kernel, _, _, rfl⟩ | ⟨call, _, rfl⟩ |
    ⟨call, kernel, _, _, rfl⟩ | ⟨call, _, _, rfl⟩
  · cases outcome with
    | returns status out => exact ⟨_, rfl⟩
    | blocks => exact ⟨_, rfl⟩
  · exact ⟨_, rfl⟩
  · exact ⟨_, rfl⟩
  · exact (wakeUp_moves machine self call).2

theorem enter_pc (machine : Machine) (self : Addr) (call : Call) :
    ∃ place, (machine.enter self call).pc = Function.update machine.pc self place ∧
      (machine.enter self call).kernel = machine.kernel := by
  unfold Machine.enter
  split
  · exact ⟨_, rfl, rfl⟩
  · exact ⟨_, rfl, rfl⟩

theorem inUser_some {machine : Machine} {self : Addr} (user : machine.inUser = true)
    (isCurrent : machine.kernel.currentTcb = some self) :
    some self ≠ machine.kernel.idleTcb ∧ machine.pc self = .user := by
  unfold Machine.inUser at user
  rw [isCurrent] at user
  simp only [Bool.and_eq_true, decide_eq_true_eq] at user
  refine ⟨user.1, ?_⟩
  cases place : machine.pc self with
  | user => rfl
  | _ =>
      rw [place] at user
      cases user.2

end MicrokernelRtos
