/-
The processor that runs the tasks of the kernel.

The thread that has the processor computes with its registers and writes into its own
stack, or calls the kernel; what a call returns to its caller is a computation of the
caller.  A tick or a switch may fall between any two of its steps.  PendSV saves the
context of the task it interrupts on the stack of that task and loads the context of the
task that `scheduler_get_next` selects, and SVC starts the first one.

The stacks of the tasks are blocks of the heap, or the static array of the idle task, and
no two of them have a word in common.
-/

import MicrokernelRtos.ContextSwitch
import MicrokernelRtos.Library.Threads
import MicrokernelRtos.Runs.Passes
import MicrokernelRtos.Runs.TaskMemory

namespace MicrokernelRtos

open Tiling Transition Words

/-! ### The runs -/

/-- The kernel with its heap, the processor, and the variables in which
`rtos_stack_check_all` reports a stack that has overflowed.  Once they are set the
handler never returns. -/
structure Board where
  memory : TaskMemory
  cpu : Cpu
  overflow : Option (Addr × Word)

def Board.kernel (s : Board) : Kernel := s.memory.system.kernel

def Board.stackOf (image : Image) (s : Board) (t : Addr) : Stack :=
  if some t = s.kernel.idleTcb then ⟨image.idleStack, idleStackSize⟩
  else ⟨(s.memory.stackOf t).ptr, (s.memory.stackOf t).requested⟩

/-- The task that has the processor; before `rtos_start` it is `main`. -/
def Board.executing (s : Board) : Option Addr :=
  if s.cpu.onPsp then s.kernel.currentTcb else none

def Board.withKernel (s : Board) (kernel : Kernel) (cpu : Cpu) : Board :=
  { s with
    memory := { s.memory with system := { s.memory.system with kernel := kernel } }
    cpu := cpu }

/-- `SysTick_Handler` while no software timer is armed, with its check of the stacks. -/
def sysTickChecked (kernel : Kernel) (stackOf : Addr → Stack) (cpu : Cpu) :
    Option (Option (Addr × Word) × Kernel) :=
  (rtosWakeDelayed (rtosTickIncrement kernel)).bind fun woken =>
    match rtosStackCheckAll woken stackOf cpu with
    | some found => some (some found, woken)
    | none => (schedulerTimeSliceTick woken).map fun sliced =>
        (none, schedulerMarkReschedule sliced)

inductive BoardAction where
  | execute (callee frame : Registers) (psp : Nat) (writes : List (Nat × Word))
  | create (taskFunc : Option Nat) (priority stackSize : Nat)
  | service (action : MemoryAction)
  | sysTick
  | pendSv
  | svc

def MemoryAction.isService : MemoryAction → Bool
  | .delete _ => true
  | .kernel (.call _) => true
  | .kernel .yield => true
  | .alloc _ => true
  | .free _ => true
  | .write _ _ => true
  | _ => false

def Board.withTask (image : Image) (s : Board) (kernel : Kernel) (heap : Heap)
    (taskFunc : Option Nat) (stackSize tcb stk : Nat) : Board :=
  { s with
    memory := s.memory.withTask kernel heap tcb ⟨stk, roundedStack stackSize⟩
    cpu := buildStack image s.cpu tcb ⟨stk, roundedStack stackSize⟩
      (BitVec.ofNat 32 (taskFunc.getD 0)) }

def Board.advance (image : Image) (s : Board) : BoardAction → Option Board
  | .execute callee frame psp writes =>
      some { s with
        cpu := { s.cpu with
          callee := callee, frame := frame, psp := psp, words := writeAll s.cpu.words writes } }
  | .create taskFunc priority stackSize =>
      if canCall s.kernel then
        (taskCreateOnHeap s.kernel s.memory.heap taskFunc priority stackSize).map fun created =>
          match created.1 with
          | none =>
              { s with
                memory := { s.memory with
                  system := { s.memory.system with kernel := created.2.1 }
                  heap := created.2.2 } }
          | some (tcb, stk) => s.withTask image created.2.1 created.2.2 taskFunc stackSize tcb stk
      else none
  | .service action =>
      if action.isService then
        (memoryStep s.memory action).map fun memory => { s with memory := memory }
      else none
  | .sysTick =>
      let entered := exceptionEntry s.cpu
      (sysTickChecked s.kernel (s.stackOf image) entered).map fun ticked =>
        match ticked.1 with
        | some found => { s.withKernel ticked.2 entered with overflow := some found }
        | none => s.withKernel ticked.2 (exceptionReturn entered)
  | .pendSv =>
      (takeException pendSvHandler s.kernel s.cpu).map fun handled =>
        s.withKernel handled.1 handled.2
  | .svc =>
      if s.cpu.onPsp then none
      else (takeException svcHandler s.kernel s.cpu).map fun handled =>
        s.withKernel handled.1 handled.2

def boardStep (image : Image) (s : Board) (action : BoardAction) : Option Board :=
  match s.overflow with
  | some _ => none
  | none => s.advance image action

/-- The thread that has the processor keeps to its stack and leaves room there for an
interrupt; the flag of the alignment is none of its registers.  `main` has no stack
among those of the tasks, and asks for no switch before `rtos_start`. -/
def BoardAllowed (image : Image) (s : Board) : BoardAction → Prop
  | .execute _ frame psp writes =>
      match s.executing with
      | some t => Room (s.stackOf image t) psp ∧ (frame xpsr).getLsbD 9 = false ∧
          ∀ write ∈ writes,
            (s.stackOf image t).base ≤ write.1 ∧ write.1 < (s.stackOf image t).high
      | none => psp = s.cpu.psp ∧ writes = []
  | .create taskFunc priority stackSize =>
      MemoryAllowed s.memory (.create taskFunc priority stackSize)
  | .service action => MemoryAllowed s.memory action
  | .sysTick => True
  | .pendSv => s.cpu.onPsp = true
  | .svc => True

/-- After `task_init`: the idle task has its first frame, and `main` the processor. -/
structure BoardBooted (image : Image) (s : Board) : Prop where
  memory : MemoryBooted s.memory
  main : s.cpu.onPsp = false
  idle : ∀ idle, s.kernel.idleTcb = some idle →
    ∃ before, s.cpu = buildStack image before idle ⟨image.idleStack, idleStackSize⟩
      image.idleTaskFn
  overflow : s.overflow = none

/-! ### Contexts -/

def Board.contextOf (image : Image) (s : Board) (t : Addr) : Context :=
  if s.executing = some t then s.cpu.context (s.stackOf image t).high
  else savedContext s.cpu.words (s.cpu.stackPtr t) (s.stackOf image t).high

/-- The tasks as threads with contexts of their own. -/
def Board.threads (image : Image) (s : Board) : Threads Addr Context where
  running := s.executing
  context := fun t => if t ∈ s.kernel.taskRegistry then some (s.contextOf image t) else none

/-- Every task is interruptible where it executes, and saved where it does not. -/
structure BoardCoherent (image : Image) (s : Board) : Prop where
  memory : MemoryCoherent s.memory
  running : ∀ t, s.executing = some t → Interruptible s.cpu (s.stackOf image t)
  saved : ∀ t ∈ s.kernel.taskRegistry, s.executing ≠ some t →
    Saved s.cpu.words (s.stackOf image t) (s.cpu.stackPtr t)
  started : s.cpu.onPsp = true ↔ s.kernel.currentTcb ≠ none

/-! ### The stacks -/

section Facts

variable {image : Image} {s : Board} {t u : Addr}

theorem stackOf_idle (isIdle : some t = s.kernel.idleTcb) :
    s.stackOf image t = ⟨image.idleStack, idleStackSize⟩ :=
  if_pos isIdle

theorem stackOf_live (notIdle : some t ≠ s.kernel.idleTcb) :
    s.stackOf image t = ⟨(s.memory.stackOf t).ptr, (s.memory.stackOf t).requested⟩ :=
  if_neg notIdle

theorem MemoryCoherent.live_or_idle (holds : MemoryCoherent s.memory)
    (member : t ∈ s.kernel.taskRegistry) :
    (t ∈ s.memory.system.live ∧ some t ≠ s.kernel.idleTcb) ∨ some t = s.kernel.idleTcb := by
  rcases (holds.system.registry t).mp member with live | isIdle
  · exact Or.inl ⟨live, holds.system.idleApart t live⟩
  · exact Or.inr isIdle

theorem stackOf_mem (live : t ∈ s.memory.system.live) :
    s.memory.stackOf t ∈ s.memory.allocations := by
  unfold TaskMemory.allocations
  apply List.mem_append_right
  apply List.mem_append_left
  exact List.mem_map_of_mem live

theorem MemoryCoherent.live_stack (holds : MemoryCoherent s.memory)
    (live : t ∈ s.memory.system.live) :
    8 ∣ (s.memory.stackOf t).ptr ∧
      (s.memory.stackOf t).ptr + (s.memory.stackOf t).requested ≤ heapPoolSize := by
  obtain ⟨free, tiled⟩ := holds.tiled
  obtain ⟨aligned, _, within⟩ := tiled.wellFormed.live _ (stackOf_mem live)
  exact ⟨aligned, Nat.le_trans within (tiled.stop_le (Tiled.mem_live (stackOf_mem live)))⟩

theorem Stack.high_le (stack : Stack) : stack.high ≤ stack.base + stack.size :=
  Nat.div_mul_le_self _ _

theorem MemoryCoherent.stack_aligned (holds : MemoryCoherent s.memory)
    (member : t ∈ s.kernel.taskRegistry) : 8 ∣ (s.stackOf image t).base := by
  rcases holds.live_or_idle member with ⟨live, notIdle⟩ | isIdle
  · rw [stackOf_live notIdle]
    exact (holds.live_stack live).1
  · rw [stackOf_idle isIdle]
    exact image.aligned

theorem MemoryCoherent.live_apart (holds : MemoryCoherent s.memory)
    (live : t ∈ s.memory.system.live) (other : u ∈ s.memory.system.live) (different : u ≠ t) :
    (s.memory.stackOf t).ptr + (s.memory.stackOf t).requested ≤ (s.memory.stackOf u).ptr ∨
      (s.memory.stackOf u).ptr + (s.memory.stackOf u).requested ≤ (s.memory.stackOf t).ptr := by
  obtain ⟨free, tiled⟩ := holds.tiled
  have inside := tiled.wellFormed.live
  obtain ⟨_, headerT, withinT⟩ := inside _ (stackOf_mem live)
  obtain ⟨_, headerU, withinU⟩ := inside _ (stackOf_mem other)
  have listed := tiled.perm (allocations_perm (List.perm_cons_erase live))
  have behind : s.memory.stackOf u ∈ tcbOf t ::
      { s.memory with system := { s.memory.system with
        live := s.memory.system.live.erase t } }.allocations := by
    apply List.mem_cons_of_mem
    unfold TaskMemory.allocations
    apply List.mem_append_right
    apply List.mem_append_left
    exact List.mem_map_of_mem ((List.mem_erase_of_ne different).mpr other)
  have apart := listed.live_apart behind
  unfold Apart at apart
  unfold headerSize at headerT headerU
  omega

/-- The stacks of two tasks have no word in common. -/
theorem MemoryCoherent.stacks_apart (holds : MemoryCoherent s.memory)
    (member : t ∈ s.kernel.taskRegistry) (other : u ∈ s.kernel.taskRegistry)
    (different : u ≠ t) :
    (s.stackOf image t).high ≤ (s.stackOf image u).base ∨
      (s.stackOf image u).high ≤ (s.stackOf image t).base := by
  have highT := (s.stackOf image t).high_le
  have highU := (s.stackOf image u).high_le
  have outside := image.outside
  rcases holds.live_or_idle member with ⟨liveT, notIdleT⟩ | idleT
  · rcases holds.live_or_idle other with ⟨liveU, notIdleU⟩ | idleU
    · have apart := holds.live_apart liveT liveU different
      rw [stackOf_live notIdleT] at highT ⊢
      rw [stackOf_live notIdleU] at highU ⊢
      simp only at highT highU ⊢
      omega
    · have within := (holds.live_stack liveT).2
      rw [stackOf_live notIdleT] at highT ⊢
      rw [stackOf_idle idleU]
      simp only at highT ⊢
      omega
  · rcases holds.live_or_idle other with ⟨liveU, notIdleU⟩ | idleU
    · have within := (holds.live_stack liveU).2
      rw [stackOf_live notIdleU] at highU ⊢
      rw [stackOf_idle idleT]
      simp only at highU ⊢
      omega
    · exact absurd (Option.some.inj (idleU.trans idleT.symm)) different

theorem MemoryCoherent.others_agree (holds : MemoryCoherent s.memory)
    (member : t ∈ s.kernel.taskRegistry) (other : u ∈ s.kernel.taskRegistry)
    (different : u ≠ t) {words : Nat → Word}
    (outside : ∀ place,
      place < (s.stackOf image t).base ∨ (s.stackOf image t).high ≤ place →
        words place = s.cpu.words place) :
    AgreeOn words s.cpu.words (s.stackOf image u).base (s.stackOf image u).high := by
  have apart := @MemoryCoherent.stacks_apart image s t u holds member other different
  intro place above below
  apply outside
  omega

theorem BoardCoherent.executing_eq (holds : BoardCoherent image s) :
    s.executing = s.kernel.currentTcb := by
  unfold Board.executing
  split
  · rfl
  · rename_i onMain
    have unstarted := mt holds.started.mpr onMain
    rw [not_not] at unstarted
    exact unstarted.symm

theorem BoardCoherent.executing_mem (holds : BoardCoherent image s)
    (executes : s.executing = some t) : t ∈ s.kernel.taskRegistry := by
  rw [holds.executing_eq] at executes
  exact holds.memory.system.coherent.registry.current t executes

end Facts

/-! ### Calls of the kernel -/

/-- What a call other than `task_create` leaves of the tasks: all of them, or all but
one that was neither idle nor the caller. -/
structure ServiceFrame (before after : TaskMemory) : Prop where
  current : after.system.kernel.currentTcb = before.system.kernel.currentTcb
  idle : after.system.kernel.idleTcb = before.system.kernel.idleTcb
  sameStacks : after.stackOf = before.stackOf
  registry : after.system.kernel.taskRegistry = before.system.kernel.taskRegistry ∨
    ∃ gone, some gone ≠ before.system.kernel.currentTcb ∧
      after.system.kernel.taskRegistry = before.system.kernel.taskRegistry.erase gone

section Services

variable {before after : TaskMemory}

theorem ServiceFrame.listed_before (frame : ServiceFrame before after) {t : Addr}
    (listed : t ∈ after.system.kernel.taskRegistry) :
    t ∈ before.system.kernel.taskRegistry := by
  rcases frame.registry with same | ⟨gone, _, fewer⟩
  · rw [same] at listed
    exact listed
  · rw [fewer] at listed
    exact List.mem_of_mem_erase listed

theorem serviceFrame_of_step {action : Action} (holds : SystemCoherent before.system)
    (bucket : UnlockKeepsBucket before.system action) (leaves : action.leavesCurrent = true)
    (tasks : action.leavesTasks = true) (taken : step before.system action = some after.system)
    (sameStacks : after.stackOf = before.stackOf) : ServiceFrame before after := by
  obtain ⟨same, _⟩ := step_sameTasks holds bucket tasks taken
  exact ⟨step_current leaves taken, same.idle, sameStacks, Or.inl same.registry⟩

theorem memoryStep_serviceFrame (holds : MemoryCoherent before) {action : MemoryAction}
    (isService : action.isService = true) (allowed : MemoryAllowed before action)
    (taken : memoryStep before action = some after) : ServiceFrame before after := by
  cases action with
  | create taskFunc priority stackSize => cases isService
  | delete tcb =>
      obtain ⟨stepped, sameStacks⟩ := memoryStep_delete taken
      have current : after.system.kernel.currentTcb = before.system.kernel.currentTcb :=
        @step_current before.system after.system (.delete tcb) rfl stepped
      have idle : after.system.kernel.idleTcb = before.system.kernel.idleTcb :=
        (@step_sameIdle before.system after.system (.delete tcb) holds.system trivial stepped).1
      refine ⟨current, idle, sameStacks, ?_⟩
      generalize after.system = result at stepped
      cases step_moves stepped with
      | stays => exact Or.inl rfl
      | deletes _ _ notCurrent detachment removal =>
          obtain ⟨reason, object, onMutex, fields, _⟩ := detachIfBlocked_core detachment
          have core := (schedulerRemoveTask_onlyRings removal).core.trans fields
          refine Or.inr ⟨tcb, notCurrent, ?_⟩
          simp only
          rw [core]
  | kernel action =>
      simp only [memoryStep] at taken
      split at taken
      · rename_i tasks
        obtain ⟨next, stepped, rfl⟩ := Option.map_eq_some_iff.mp taken
        have leaves : action.leavesCurrent = true := by
          cases action with
          | call call => rfl
          | yield => rfl
          | create _ _ _ _ _ => rfl
          | delete _ => rfl
          | sysTick => rfl
          | getNext => cases isService
          | dispatch _ => cases isService
        exact serviceFrame_of_step holds.system allowed leaves tasks stepped rfl
      · cases taken
  | alloc size =>
      obtain ⟨result, _, rfl⟩ := Option.map_eq_some_iff.mp taken
      exact ⟨rfl, rfl, rfl, Or.inl rfl⟩
  | free allocation =>
      obtain ⟨heap, _, rfl⟩ := Option.map_eq_some_iff.mp taken
      exact ⟨rfl, rfl, rfl, Or.inl rfl⟩
  | write size next =>
      cases taken
      exact ⟨rfl, rfl, rfl, Or.inl rfl⟩

end Services

/-! ### What a step can be -/

theorem Created.fields {taskFunc : Option Nat} {priority stackSize tcb stk : Nat}
    {kernel : Kernel} {heap : Heap} {memory : TaskMemory}
    (created : Created memory taskFunc priority stackSize tcb stk kernel heap) :
    kernel.currentTcb = memory.system.kernel.currentTcb ∧
      kernel.idleTcb = memory.system.kernel.idleTcb ∧
      kernel.taskRegistry = memory.system.kernel.taskRegistry ++ [tcb] := by
  rcases taskCreate_cases created.creation with
    ⟨impossible, _⟩ | ⟨new, added, isNew, returned, _, addition, rfl⟩
  · cases impossible
  · cases returned
    cases isNew
    have frame := schedulerAddTask_onlyRings (Function.update_self _ _ _) addition
    simp only
    rw [frame.core]
    exact ⟨rfl, rfl, rfl⟩

/-- A tick whose check has found every canary does what it does without the check. -/
theorem sysTickChecked_returns {kernel ticked : Kernel} {stackOf : Addr → Stack} {cpu : Cpu}
    (returned : sysTickChecked kernel stackOf cpu = some (none, ticked)) :
    sysTickHandler kernel = some ticked := by
  obtain ⟨woken, wake, onward⟩ := Option.bind_eq_some_iff.mp returned
  unfold sysTickHandler
  rw [wake, Option.bind_some]
  split at onward
  · cases onward
  · obtain ⟨sliced, slice, equal⟩ := Option.map_eq_some_iff.mp onward
    cases equal
    rw [slice]
    rfl

def BoardAction.calls : BoardAction → Bool
  | .create _ _ _ => true
  | .service _ => true
  | _ => false

/-- A step of the board, with what it has found on the way.  A creation that is refused
gives back what it was given by the heap. -/
inductive BoardMoves (image : Image) (s : Board) : BoardAction → Board → Prop where
  | executes {callee frame : Registers} {psp : Nat} {writes : List (Nat × Word)} :
      BoardMoves image s (.execute callee frame psp writes)
        { s with cpu := { s.cpu with
          callee := callee, frame := frame, psp := psp, words := writeAll s.cpu.words writes } }
  | serves {action : BoardAction} {memory : TaskMemory} (calls : action.calls = true)
      (kept : MemoryCoherent memory) (frame : ServiceFrame s.memory memory) :
      BoardMoves image s action { s with memory := memory }
  | creates {taskFunc : Option Nat} {priority stackSize tcb stk : Nat} {kernel : Kernel}
      {heap : Heap} (large : minStackSize ≤ stackSize)
      (created : Created s.memory taskFunc priority stackSize tcb stk kernel heap)
      (kept : MemoryCoherent (s.withTask image kernel heap taskFunc stackSize tcb stk).memory) :
      BoardMoves image s (.create taskFunc priority stackSize)
        (s.withTask image kernel heap taskFunc stackSize tcb stk)
  | ticks {ticked : Kernel} (returned : sysTickHandler s.kernel = some ticked) :
      BoardMoves image s .sysTick
        (s.withKernel ticked (exceptionReturn (exceptionEntry s.cpu)))
  | halts {after : Board} {report : Addr × Word} (stops : after.overflow = some report) :
      BoardMoves image s .sysTick after
  | pends {t sel : Addr} {next : Kernel} (executes : s.executing = some t)
      (returned : schedulerGetNext s.kernel = some (sel, next)) :
      BoardMoves image s .pendSv (s.withKernel next
        (exceptionReturn (loadContext (saveContext (some t) (exceptionEntry s.cpu)) sel)))
  | starts {sel : Addr} {next : Kernel} (onMain : s.cpu.onPsp = false)
      (returned : schedulerGetNext s.kernel = some (sel, next)) :
      BoardMoves image s .svc
        (s.withKernel next (exceptionReturn (loadContext { s.cpu with onPsp := true } sel)))

section Inversion

variable {image : Image} {s after : Board}

theorem BoardCoherent.create (holds : BoardCoherent image s) {taskFunc : Option Nat}
    {priority stackSize : Nat}
    (allowed : MemoryAllowed s.memory (.create taskFunc priority stackSize))
    (taken : s.advance image (.create taskFunc priority stackSize) = some after) :
    BoardMoves image s (.create taskFunc priority stackSize) after := by
  simp only [Board.advance] at taken
  split at taken
  · rename_i can
    have stepped : memoryStep s.memory (.create taskFunc priority stackSize) =
        some after.memory := by
      obtain ⟨⟨handle, kernel, heap⟩, returned, rfl⟩ := Option.map_eq_some_iff.mp taken
      have again : taskCreateOnHeap s.memory.system.kernel s.memory.heap taskFunc priority
          stackSize = some (handle, kernel, heap) := returned
      have may : canCall s.memory.system.kernel = true := can
      simp only [memoryStep, may, if_true, again, Option.map_some]
      cases handle with
      | none => rfl
      | some pair => rfl
    have kept := holds.memory.step allowed stepped
    have refuses : ∀ heap, taskCreateOnHeap s.kernel s.memory.heap taskFunc priority stackSize =
        some (none, s.kernel, heap) →
        BoardMoves image s (.create taskFunc priority stackSize) after := by
      intro heap returned
      rw [returned] at taken
      cases taken
      exact .serves rfl kept ⟨rfl, rfl, rfl, Or.inl rfl⟩
    by_cases accepted : Accepted s.kernel taskFunc stackSize
    · obtain ⟨free, tiled⟩ := holds.memory.tiled
      obtain ⟨isSize, found⟩ := allowed
      rcases holds.memory.create tiled accepted isSize (found free tiled.lists accepted) with
        ⟨_, heap, _, returned, _, _⟩ | ⟨_, tcb, stk, kernel, heap, returned, created⟩
      · exact refuses heap returned
      · have again : taskCreateOnHeap s.kernel s.memory.heap taskFunc priority stackSize =
            some (some (tcb, stk), kernel, heap) := returned
        rw [again] at taken
        cases taken
        exact .creates accepted.2.1 created kept
    · exact refuses s.memory.heap (taskCreateOnHeap_refused accepted)
  · cases taken

theorem BoardCoherent.moves (holds : BoardCoherent image s) {action : BoardAction}
    (allowed : BoardAllowed image s action) (taken : s.advance image action = some after) :
    BoardMoves image s action after := by
  cases action with
  | execute callee frame psp writes =>
      cases taken
      exact .executes
  | create taskFunc priority stackSize => exact holds.create allowed taken
  | service action =>
      simp only [Board.advance] at taken
      split at taken
      · rename_i isService
        obtain ⟨memory, stepped, rfl⟩ := Option.map_eq_some_iff.mp taken
        exact .serves rfl (holds.memory.step allowed stepped)
          (memoryStep_serviceFrame holds.memory isService allowed stepped)
      · cases taken
  | sysTick =>
      obtain ⟨⟨found, ticked⟩, returned, rfl⟩ := Option.map_eq_some_iff.mp taken
      cases found with
      | some report => exact .halts rfl
      | none => exact .ticks (sysTickChecked_returns returned)
  | pendSv =>
      obtain ⟨handled, handling, rfl⟩ := Option.map_eq_some_iff.mp taken
      obtain ⟨switched, handler, rfl⟩ := Option.map_eq_some_iff.mp handling
      obtain ⟨⟨sel, next⟩, returned, rfl⟩ := Option.map_eq_some_iff.mp handler
      obtain ⟨t, current⟩ := Option.ne_none_iff_exists'.mp (holds.started.mp allowed)
      rw [current]
      exact .pends (holds.executing_eq.trans current) returned
  | svc =>
      simp only [Board.advance] at taken
      split at taken
      · cases taken
      · rename_i onPsp
        have onMain := Bool.eq_false_of_not_eq_true onPsp
        obtain ⟨handled, handling, rfl⟩ := Option.map_eq_some_iff.mp taken
        obtain ⟨switched, handler, rfl⟩ := Option.map_eq_some_iff.mp handling
        rw [exceptionEntry_main onMain] at handler
        obtain ⟨⟨sel, next⟩, returned, rfl⟩ := Option.map_eq_some_iff.mp handler
        exact .starts onMain returned

theorem schedulerGetNext_sameTasks {kernel next : Kernel} {sel : Addr}
    (returned : schedulerGetNext kernel = some (sel, next)) :
    SameTasks kernel.toCore next.toCore ∧ next.currentTcb = some sel := by
  obtain ⟨state, counter, fields⟩ := select_core kernel sel
  rw [(schedulerGetNext_onlyRings returned).core.trans fields]
  exact ⟨⟨rfl, rfl, rfl⟩, rfl⟩

end Inversion

/-! ### A run to start from -/

def sampleImage : Image where
  idleStack := heapPoolSize
  idleTaskFn := 0x08000101#32
  taskExitTrap := 0x08000201#32
  outside := Nat.le_refl _
  aligned := by decide

def bootedBoard : Board where
  memory := bootedMemory
  cpu := buildStack sampleImage
    { callee := fun _ => 0, frame := fun _ => 0, psp := 0, onPsp := false, words := fun _ => 0
      stackPtr := fun _ => 0 } 8 ⟨heapPoolSize, idleStackSize⟩ sampleImage.idleTaskFn
  overflow := none

theorem boardBooted_bootedBoard : BoardBooted sampleImage bootedBoard where
  memory := memoryBooted_bootedMemory
  main := rfl
  idle := by
    intro idle isIdle
    have first : bootedBoard.kernel.idleTcb = some 8 := rfl
    rw [first] at isIdle
    cases isIdle
    exact ⟨_, rfl⟩
  overflow := rfl

instance (stack : Stack) (psp : Nat) : Decidable (Room stack psp) :=
  decidable_of_iff (stack.base + 72 ≤ psp ∧ psp ≤ stack.high ∧ 4 ∣ psp)
    ⟨fun room => ⟨room.1, room.2.1, room.2.2⟩, fun room => ⟨room.low, room.high, room.aligned⟩⟩

def boardCheck (image : Image) (s : Board) : BoardAction → Bool
  | .execute _ frame psp writes =>
      match s.executing with
      | some t => decide (Room (s.stackOf image t) psp ∧ (frame xpsr).getLsbD 9 = false ∧
          ∀ write ∈ writes,
            (s.stackOf image t).base ≤ write.1 ∧ write.1 < (s.stackOf image t).high)
      | none => decide (psp = s.cpu.psp ∧ writes = [])
  | .create taskFunc priority stackSize =>
      memoryCheck s.memory (.create taskFunc priority stackSize)
  | .service action => memoryCheck s.memory action
  | .sysTick => true
  | .pendSv => s.cpu.onPsp
  | .svc => true

theorem boardAllowed_of_check {image : Image} (s : Board) (action : BoardAction)
    (checked : boardCheck image s action = true) : BoardAllowed image s action := by
  cases action with
  | execute callee frame psp writes =>
      simp only [boardCheck] at checked
      simp only [BoardAllowed]
      cases isExecuting : s.executing with
      | none =>
          rw [isExecuting] at checked
          exact of_decide_eq_true checked
      | some t =>
          rw [isExecuting] at checked
          exact of_decide_eq_true checked
  | create taskFunc priority stackSize =>
      exact memoryAllowed_of_check s.memory (.create taskFunc priority stackSize) checked
  | service action => exact memoryAllowed_of_check s.memory action checked
  | sysTick => exact trivial
  | pendSv => exact checked
  | svc => exact trivial

end MicrokernelRtos
