/-
Each task has the processor for itself.

A tick, a switch, a call of another task and the creation or deletion of a task leave the
context of every task as it is, in the processor or on its stack: the board refines
threads that have contexts of their own.  A task that was switched away finds its
registers and its stack again, however many others have run meanwhile, and a new task
begins at its function with the registers that `_build_initial_stack` has laid out.
-/

import MicrokernelRtos.Runs.Board

namespace MicrokernelRtos

open Transition Words

/-! ### Steps -/

/-- The board is coherent after a step, and the step is one of the threads. -/
structure BoardRefines (image : Image) (s after : Board) : Prop where
  coherent : BoardCoherent image after
  taken : (s.threads image).Step (after.threads image)

structure BoardManages (image : Image) (s after : Board) : Prop where
  coherent : BoardCoherent image after
  managed : (s.threads image).Managed (after.threads image)

theorem BoardManages.refines {image : Image} {s after : Board} (step : BoardManages image s after) :
    BoardRefines image s after :=
  ⟨step.coherent, .manages step.managed⟩

section Steps

variable {image : Image} {s after : Board}

theorem contextOf_executing {t : Addr} (executes : s.executing = some t) :
    s.contextOf image t = s.cpu.context (s.stackOf image t).high :=
  if_pos executes

theorem contextOf_suspended {t : Addr} (suspended : s.executing ≠ some t) :
    s.contextOf image t =
      savedContext s.cpu.words (s.cpu.stackPtr t) (s.stackOf image t).high :=
  if_neg suspended

theorem threads_context {t : Addr} (member : t ∈ s.kernel.taskRegistry) :
    (s.threads image).context t = some (s.contextOf image t) :=
  if_pos member

theorem threads_running (registry : after.kernel.taskRegistry = s.kernel.taskRegistry)
    (contexts : ∀ t ∈ s.kernel.taskRegistry, after.contextOf image t = s.contextOf image t) :
    after.threads image = { s.threads image with running := after.executing } := by
  unfold Board.threads
  simp only [registry]
  congr 1
  funext t
  split
  · rename_i member
    rw [contexts t member]
  · rfl

theorem threads_congr (executes : after.executing = s.executing)
    (registry : after.kernel.taskRegistry = s.kernel.taskRegistry)
    (contexts : ∀ t ∈ s.kernel.taskRegistry, after.contextOf image t = s.contextOf image t) :
    after.threads image = s.threads image := by
  rw [threads_running registry contexts, executes]
  rfl

theorem threads_update {t : Addr} (executes : after.executing = s.executing)
    (registry : ∀ u, u ∈ after.kernel.taskRegistry ↔ u = t ∨ u ∈ s.kernel.taskRegistry)
    (others : ∀ u ∈ s.kernel.taskRegistry, u ≠ t →
      after.contextOf image u = s.contextOf image u) :
    after.threads image = { s.threads image with
      context := Function.update (s.threads image).context t
        (some (after.contextOf image t)) } := by
  unfold Board.threads
  simp only [executes]
  congr 1
  funext u
  by_cases same : u = t
  · subst same
    rw [Function.update_self, if_pos ((registry u).mpr (Or.inl rfl))]
  · rw [Function.update_of_ne same]
    by_cases member : u ∈ s.kernel.taskRegistry
    · rw [if_pos ((registry u).mpr (Or.inr member)), if_pos member, others u member same]
    · rw [if_neg (fun listed => ((registry u).mp listed).elim same member), if_neg member]

theorem withKernel_stackOf {kernel : Kernel} (idle : kernel.idleTcb = s.kernel.idleTcb) (cpu : Cpu)
    (u : Addr) : (s.withKernel kernel cpu).stackOf image u = s.stackOf image u := by
  change (if some u = kernel.idleTcb then _ else _) = _
  rw [idle]
  rfl

theorem ServiceFrame.stackOf_eq {memory : TaskMemory} (frame : ServiceFrame s.memory memory)
    (u : Addr) : ({ s with memory := memory } : Board).stackOf image u = s.stackOf image u := by
  change (if some u = memory.system.kernel.idleTcb then _ else _) = _
  rw [frame.idle, frame.sameStacks]
  rfl

/-- A step in which the same task goes on, or `main` does, and no other stack is
written. -/
structure GoesOn (image : Image) (s after : Board) : Prop where
  memory : MemoryCoherent after.memory
  executes : after.executing = s.executing
  started : after.cpu.onPsp = true ↔ after.kernel.currentTcb ≠ none
  registry : after.kernel.taskRegistry = s.kernel.taskRegistry
  regions : ∀ u, after.stackOf image u = s.stackOf image u
  pointers : after.cpu.stackPtr = s.cpu.stackPtr
  running : ∀ t, s.executing = some t → Interruptible after.cpu (s.stackOf image t)
  others : ∀ u ∈ s.kernel.taskRegistry, s.executing ≠ some u →
    AgreeOn after.cpu.words s.cpu.words (s.stackOf image u).base (s.stackOf image u).high

theorem GoesOn.coherent (step : GoesOn image s after) (holds : BoardCoherent image s) :
    BoardCoherent image after := by
  refine ⟨step.memory, ?_, ?_, step.started⟩
  · intro t executing
    rw [step.executes] at executing
    rw [step.regions]
    exact step.running t executing
  · intro u member suspended
    rw [step.registry] at member
    rw [step.executes] at suspended
    rw [step.regions, step.pointers]
    exact (holds.saved u member suspended).congr (step.others u member suspended)

theorem GoesOn.contextOf_eq (step : GoesOn image s after) (holds : BoardCoherent image s)
    {u : Addr} (member : u ∈ s.kernel.taskRegistry) (suspended : s.executing ≠ some u) :
    after.contextOf image u = s.contextOf image u := by
  rw [contextOf_suspended suspended, contextOf_suspended (by rw [step.executes]; exact suspended),
    step.regions, step.pointers]
  exact (holds.saved u member suspended).context_eq (step.others u member suspended)

theorem GoesOn.computes (step : GoesOn image s after) (holds : BoardCoherent image s) :
    BoardRefines image s after := by
  refine ⟨step.coherent holds, ?_⟩
  cases isExecuting : s.executing with
  | none =>
      have same : after.threads image = s.threads image :=
        threads_congr step.executes step.registry fun u member =>
          step.contextOf_eq holds member (by rw [isExecuting]; exact (Option.some_ne_none u).symm)
      rw [same]
      exact .manages .rests
  | some t =>
      have member := holds.executing_mem isExecuting
      have updated := @threads_update image s after t step.executes
        (fun u => by
          rw [step.registry]
          exact ⟨Or.inr, fun listed => listed.elim (fun same => same ▸ member) id⟩)
        (fun u other different => by
          apply step.contextOf_eq holds other
          rw [isExecuting]
          exact fun same => different (Option.some.inj same).symm)
      rw [updated]
      exact .computes _ isExecuting

theorem GoesOn.rests (step : GoesOn image s after) (holds : BoardCoherent image s)
    (same : ∀ t, s.executing = some t → after.contextOf image t = s.contextOf image t) :
    BoardManages image s after := by
  refine ⟨step.coherent holds, ?_⟩
  have unchanged : after.threads image = s.threads image := by
    apply threads_congr step.executes step.registry
    intro u member
    by_cases executing : s.executing = some u
    · exact same u executing
    · exact step.contextOf_eq holds member executing
  rw [unchanged]
  exact .rests

theorem BoardCoherent.execute (holds : BoardCoherent image s) {callee frame : Registers}
    {psp : Nat} {writes : List (Nat × Word)}
    (allowed : BoardAllowed image s (.execute callee frame psp writes)) :
    BoardRefines image s { s with cpu := { s.cpu with
      callee := callee, frame := frame, psp := psp, words := writeAll s.cpu.words writes } } := by
  simp only [BoardAllowed] at allowed
  have goesOn : GoesOn image s { s with cpu := { s.cpu with
      callee := callee, frame := frame, psp := psp, words := writeAll s.cpu.words writes } } := by
    refine ⟨holds.memory, rfl, holds.started, rfl, fun _ => rfl, rfl, ?_, ?_⟩
    · intro t executing
      rw [executing] at allowed
      have ready := holds.running t executing
      exact ⟨ready.onPsp, ready.base, allowed.1, allowed.2.1⟩
    · intro u member suspended
      cases isExecuting : s.executing with
      | none =>
          rw [isExecuting] at allowed
          rw [allowed.2]
          exact AgreeOn.refl _ _ _
      | some t =>
          rw [isExecuting] at allowed suspended
          have different : u ≠ t := fun same => suspended (congrArg some same.symm)
          apply holds.memory.others_agree (holds.executing_mem isExecuting) member different
          intro place outside
          apply writeAll_outside
          intro write inside same
          have bounds := allowed.2.2 write inside
          omega
  exact goesOn.computes holds

/-- A call that deletes no task goes unnoticed by all others, and its caller computes
for itself. -/
theorem BoardCoherent.service (holds : BoardCoherent image s) {memory : TaskMemory}
    (kept : MemoryCoherent memory) (frame : ServiceFrame s.memory memory) :
    BoardManages image s { s with memory := memory } := by
  have executes : ({ s with memory := memory } : Board).executing = s.executing := by
    change (if s.cpu.onPsp then memory.system.kernel.currentTcb else none) = _
    rw [frame.current]
    rfl
  have started : s.cpu.onPsp = true ↔ memory.system.kernel.currentTcb ≠ none := by
    rw [frame.current]
    exact holds.started
  have regions : ∀ u, ({ s with memory := memory } : Board).stackOf image u =
      s.stackOf image u := frame.stackOf_eq
  rcases frame.registry with same | ⟨gone, notCurrent, fewer⟩
  · have goesOn : GoesOn image s { s with memory := memory } := by
      refine ⟨kept, executes, started, same, regions, rfl, holds.running, ?_⟩
      exact fun _ _ _ => AgreeOn.refl _ _ _
    refine goesOn.rests holds fun t executing => ?_
    rw [contextOf_executing executing, contextOf_executing (executes.trans executing), regions]
  · have listed : ∀ u, u ∈ memory.system.kernel.taskRegistry ↔
        u ≠ gone ∧ u ∈ s.kernel.taskRegistry := by
      intro u
      rw [fewer]
      exact holds.memory.system.coherent.registry.distinct.mem_erase_iff
    have contexts : ∀ u, ({ s with memory := memory } : Board).contextOf image u =
        s.contextOf image u := by
      intro u
      unfold Board.contextOf
      rw [executes, regions]
    refine ⟨⟨kept, ?_, ?_, started⟩, ?_⟩
    · intro t executing
      rw [executes] at executing
      rw [regions]
      exact holds.running t executing
    · intro u member suspended
      rw [executes] at suspended
      rw [regions]
      exact holds.saved u ((listed u).mp member).2 suspended
    · have reaped : ({ s with memory := memory } : Board).threads image =
          { s.threads image with
            context := Function.update (s.threads image).context gone none } := by
        unfold Board.threads
        simp only [executes, contexts]
        congr 1
        funext u
        by_cases same : u = gone
        · subst same
          rw [Function.update_self]
          exact if_neg fun member => ((listed u).mp member).1 rfl
        · rw [Function.update_of_ne same]
          have iff : u ∈ memory.system.kernel.taskRegistry ↔ u ∈ s.kernel.taskRegistry :=
            ⟨fun member => ((listed u).mp member).2, fun member => (listed u).mpr ⟨same, member⟩⟩
          exact if_congr iff rfl rfl
      rw [reaped]
      apply Threads.Managed.reaps
      change s.executing ≠ some gone
      rw [holds.executing_eq]
      exact fun same => notCurrent same.symm

theorem MemoryCoherent.of_kernel (holds : MemoryCoherent s.memory) {action : Action}
    {kernel : Kernel} (tasks : action.leavesTasks = true)
    (bucket : UnlockKeepsBucket s.memory.system action)
    (taken : MicrokernelRtos.step s.memory.system action =
      some { s.memory.system with kernel := kernel }) (cpu : Cpu) :
    MemoryCoherent (s.withKernel kernel cpu).memory := by
  apply @MemoryCoherent.step s.memory _ holds (.kernel action) bucket
  simp only [memoryStep, tasks, if_true, taken, Option.map_some]
  rfl

theorem BoardCoherent.main (holds : BoardCoherent image s) (isMain : s.executing = none) :
    s.cpu.onPsp = false := by
  rw [holds.executing_eq] at isMain
  cases onPsp : s.cpu.onPsp with
  | false => rfl
  | true => exact absurd isMain (holds.started.mp onPsp)

theorem BoardCoherent.sysTick (holds : BoardCoherent image s) {ticked : Kernel}
    (returned : sysTickHandler s.kernel = some ticked) :
    BoardManages image s (s.withKernel ticked (exceptionReturn (exceptionEntry s.cpu))) := by
  have quiet := sysTickHandler_quiet returned
  have stepped : MicrokernelRtos.step s.memory.system .sysTick =
      some { s.memory.system with kernel := ticked } := by
    change (sysTickHandler s.kernel).map _ = _
    rw [returned]
    rfl
  have kept := fun cpu => @MemoryCoherent.of_kernel s holds.memory .sysTick ticked rfl trivial
    stepped cpu
  have stays : (exceptionReturn (exceptionEntry s.cpu)).onPsp = s.cpu.onPsp ∧
      (exceptionReturn (exceptionEntry s.cpu)).stackPtr = s.cpu.stackPtr := by
    cases isExecuting : s.executing with
    | none =>
        rw [exceptionReturn_main (holds.main isExecuting)]
        exact ⟨rfl, rfl⟩
    | some t =>
        rw [(holds.running t isExecuting).resumes]
        exact ⟨rfl, rfl⟩
  have executes : (s.withKernel ticked (exceptionReturn (exceptionEntry s.cpu))).executing =
      s.executing := by
    unfold Board.executing
    change (if (exceptionReturn (exceptionEntry s.cpu)).onPsp then ticked.currentTcb else none) = _
    rw [stays.1, quiet.current]
  have regions : ∀ u, (s.withKernel ticked (exceptionReturn (exceptionEntry s.cpu))).stackOf
      image u = s.stackOf image u := withKernel_stackOf quiet.idle _
  have goesOn : GoesOn image s
      (s.withKernel ticked (exceptionReturn (exceptionEntry s.cpu))) := by
    refine ⟨kept _, executes, ?_, quiet.registry, regions, stays.2, ?_, ?_⟩
    · change (exceptionReturn (exceptionEntry s.cpu)).onPsp = true ↔ ticked.currentTcb ≠ none
      rw [stays.1, quiet.current]
      exact holds.started
    · intro t executing
      exact (holds.running t executing).after_resuming.2.1
    · intro u member suspended
      cases isExecuting : s.executing with
      | none =>
          change AgreeOn (exceptionReturn (exceptionEntry s.cpu)).words _ _ _
          rw [exceptionReturn_main (holds.main isExecuting)]
          exact AgreeOn.refl _ _ _
      | some t =>
          rw [isExecuting] at suspended
          have different : u ≠ t := fun same => suspended (congrArg some same.symm)
          have ready := holds.running t isExecuting
          apply holds.memory.others_agree (holds.executing_mem isExecuting) member different
          intro place outside
          apply ready.after_resuming.2.2
          have high := ready.room.high
          omega
  refine goesOn.rests holds fun t executing => ?_
  rw [contextOf_executing executing, contextOf_executing (executes.trans executing), regions]
  exact (holds.running t executing).after_resuming.1

/-- With every task saved on its stack, the task that the scheduler selects gets the
processor, and no context changes. -/
theorem BoardCoherent.switch (holds : BoardCoherent image s) {sel : Addr} {next : Kernel}
    (returned : schedulerGetNext s.kernel = some (sel, next)) {saved : Cpu}
    (onPsp : saved.onPsp = true)
    (keeps : ∀ u ∈ s.kernel.taskRegistry,
      Saved saved.words (s.stackOf image u) (saved.stackPtr u) ∧
        savedContext saved.words (saved.stackPtr u) (s.stackOf image u).high =
          s.contextOf image u) :
    BoardManages image s (s.withKernel next (exceptionReturn (loadContext saved sel))) := by
  obtain ⟨member, _, _⟩ := holds.memory.system.selected returned
  obtain ⟨sameTasks, current⟩ := schedulerGetNext_sameTasks returned
  have registry := sameTasks.registry
  have stepped : MicrokernelRtos.step s.memory.system .getNext =
      some { s.memory.system with kernel := next } := by
    change (schedulerGetNext s.kernel).map _ = _
    rw [returned]
    rfl
  have kept := fun cpu => @MemoryCoherent.of_kernel s holds.memory .getNext next rfl trivial
    stepped cpu
  obtain ⟨words, pointers, stays⟩ := exceptionReturn_keeps (loadContext saved sel)
  have executes : (s.withKernel next (exceptionReturn (loadContext saved sel))).executing =
      some sel := by
    unfold Board.executing
    change (if (exceptionReturn (loadContext saved sel)).onPsp then next.currentTcb else none) = _
    rw [stays, current]
    exact if_pos onPsp
  have regions : ∀ u, (s.withKernel next (exceptionReturn (loadContext saved sel))).stackOf
      image u = s.stackOf image u := withKernel_stackOf sameTasks.idle _
  obtain ⟨selSaved, selContext⟩ := keeps sel member
  obtain ⟨restored, ready⟩ := selSaved.restores (holds.memory.stack_aligned member) onPsp
  refine ⟨⟨kept _, ?_, ?_, ?_⟩, ?_⟩
  · intro t executing
    rw [executes] at executing
    cases executing
    rw [regions]
    exact ready
  · intro u listed _
    rw [regions]
    change Saved (exceptionReturn (loadContext saved sel)).words _
      ((exceptionReturn (loadContext saved sel)).stackPtr u)
    rw [words, pointers]
    exact (keeps u (registry ▸ listed)).1
  · change (exceptionReturn (loadContext saved sel)).onPsp = true ↔ next.currentTcb ≠ none
    rw [stays, current]
    exact iff_of_true onPsp (Option.some_ne_none sel)
  · have contexts : ∀ u ∈ s.kernel.taskRegistry,
        (s.withKernel next (exceptionReturn (loadContext saved sel))).contextOf image u =
          s.contextOf image u := by
      intro u listed
      by_cases same : u = sel
      · subst same
        rw [contextOf_executing executes, regions, ← selContext]
        exact restored
      · have suspended : (s.withKernel next
            (exceptionReturn (loadContext saved sel))).executing ≠ some u := by
          rw [executes]
          exact fun equal => same (Option.some.inj equal).symm
        rw [contextOf_suspended suspended, regions, ← (keeps u listed).2]
        change savedContext (exceptionReturn (loadContext saved sel)).words
          ((exceptionReturn (loadContext saved sel)).stackPtr u) _ = _
        rw [words, pointers]
        rfl
    have switched := @threads_running image s
      (s.withKernel next (exceptionReturn (loadContext saved sel))) registry contexts
    rw [switched, executes]
    apply Threads.Managed.switches
    rw [threads_context member]
    exact Option.some_ne_none _

theorem BoardCoherent.pendSv (holds : BoardCoherent image s) {t sel : Addr} {next : Kernel}
    (executing : s.executing = some t)
    (returned : schedulerGetNext s.kernel = some (sel, next)) :
    BoardManages image s (s.withKernel next
      (exceptionReturn (loadContext (saveContext (some t) (exceptionEntry s.cpu)) sel))) := by
  have ready := holds.running t executing
  have saves := ready.saves t
  refine holds.switch returned ?_ ?_
  · rw [saves]
    exact ready.onPsp
  · intro u member
    by_cases same : u = t
    · subst same
      have pointer : (saveContext (some u) (exceptionEntry s.cpu)).stackPtr u =
          savePoint s.cpu.psp := by
        rw [saves]
        exact Function.update_self _ _ _
      rw [pointer, contextOf_executing executing]
      exact ⟨ready.saved u, ready.savedContext_eq u⟩
    · have suspended : s.executing ≠ some u := by
        rw [executing]
        exact fun equal => same (Option.some.inj equal).symm
      have pointer : (saveContext (some t) (exceptionEntry s.cpu)).stackPtr u =
          s.cpu.stackPtr u := by
        rw [saves]
        exact Function.update_of_ne same _ _
      have agree := @MemoryCoherent.others_agree image s t u holds.memory
        (holds.executing_mem executing) member same
        (saveContext (some t) (exceptionEntry s.cpu)).words (fun place outside => by
          have high := ready.room.high
          exact ready.saves_outside t (by omega))
      have saved := holds.saved u member suspended
      rw [pointer, contextOf_suspended suspended]
      exact ⟨saved.congr agree, saved.context_eq agree⟩

theorem BoardCoherent.svc (holds : BoardCoherent image s) {sel : Addr} {next : Kernel}
    (onMain : s.cpu.onPsp = false) (returned : schedulerGetNext s.kernel = some (sel, next)) :
    BoardManages image s
      (s.withKernel next (exceptionReturn (loadContext { s.cpu with onPsp := true } sel))) := by
  have nobody : ∀ u, s.executing ≠ some u := by
    intro u
    unfold Board.executing
    rw [if_neg (by rw [onMain]; decide)]
    exact (Option.some_ne_none u).symm
  exact @BoardCoherent.switch image s holds sel next returned { s.cpu with onPsp := true } rfl
    fun u member => ⟨holds.saved u member (nobody u), (contextOf_suspended (nobody u)).symm⟩

structure NewTask (image : Image) (s after : Board) (tcb : Addr) (taskFunc : Word) : Prop where
  manages : BoardManages image s after
  fresh : tcb ∉ s.kernel.taskRegistry
  only : ∀ t, t ∉ s.kernel.taskRegistry → t ∈ after.kernel.taskRegistry → t = tcb
  others : ∀ u ∈ s.kernel.taskRegistry, after.stackOf image u = s.stackOf image u ∧
    AgreeOn after.cpu.words s.cpu.words (s.stackOf image u).base (s.stackOf image u).high
  canary : after.cpu.words (after.stackOf image tcb).base = stackCanary
  context : after.contextOf image tcb = firstContext image (after.stackOf image tcb) taskFunc

theorem roundedStack_dvd (stackSize : Nat) : 8 ∣ roundedStack stackSize := Nat.dvd_mul_left 8 _

theorem Stack.high_eq {stack : Stack} (base : 8 ∣ stack.base) (size : 8 ∣ stack.size) :
    stack.high = stack.base + stack.size := by
  unfold Stack.high
  omega

/-- The board behind a creation: the new task has a stack of its own with its first frame
on it, and nobody else's stack has moved. -/
structure Installed (image : Image) (s after : Board) (tcb : Addr) (stack : Stack)
    (entry : Word) : Prop where
  fresh : tcb ∉ s.kernel.taskRegistry
  registry : after.kernel.taskRegistry = s.kernel.taskRegistry ++ [tcb]
  current : after.kernel.currentTcb = s.kernel.currentTcb
  cpu : after.cpu = buildStack image s.cpu tcb stack entry
  own : after.stackOf image tcb = stack
  regions : ∀ u ∈ s.kernel.taskRegistry, after.stackOf image u = s.stackOf image u
  room : stack.base + 72 ≤ stack.high
  apart : ∀ u ∈ s.kernel.taskRegistry, stack.high ≤ (s.stackOf image u).base ∨
    (s.stackOf image u).high ≤ stack.base

theorem BoardCoherent.installed (holds : BoardCoherent image s) {taskFunc : Option Nat}
    {priority stackSize tcb stk : Nat} {kernel : Kernel} {heap : Heap}
    (created : Created s.memory taskFunc priority stackSize tcb stk kernel heap)
    (large : minStackSize ≤ stackSize)
    (kept : MemoryCoherent (s.withTask image kernel heap taskFunc stackSize tcb stk).memory) :
    Installed image s (s.withTask image kernel heap taskFunc stackSize tcb stk) tcb
      ⟨stk, roundedStack stackSize⟩ (BitVec.ofNat 32 (taskFunc.getD 0)) := by
  obtain ⟨_, notIdle, fresh, _⟩ := holds.memory.system.toLiveRegistry.fresh created.fresh
  obtain ⟨current, idle, registry⟩ := created.fields
  obtain ⟨after, isAfter⟩ : ∃ after, after =
    s.withTask image kernel heap taskFunc stackSize tcb stk := ⟨_, rfl⟩
  rw [← isAfter] at kept ⊢
  rw [Board.withTask] at isAfter
  have registryIs : after.kernel.taskRegistry = s.kernel.taskRegistry ++ [tcb] := by
    rw [isAfter]
    exact registry
  have idleIs : after.kernel.idleTcb = s.kernel.idleTcb := by
    rw [isAfter]
    exact idle
  have listed : tcb ∈ after.kernel.taskRegistry := by
    rw [registryIs]
    exact List.mem_append_right _ (List.mem_singleton_self _)
  have still : ∀ u ∈ s.kernel.taskRegistry, u ∈ after.kernel.taskRegistry ∧ u ≠ tcb := by
    intro u member
    rw [registryIs]
    exact ⟨List.mem_append_left _ member, fun same => fresh (same ▸ member)⟩
  have own : after.stackOf image tcb = ⟨stk, roundedStack stackSize⟩ := by
    rw [stackOf_live (by rw [idleIs]; exact notIdle), isAfter]
    simp only [TaskMemory.withTask, Function.update_self]
  have regions : ∀ u ∈ s.kernel.taskRegistry, after.stackOf image u = s.stackOf image u := by
    intro u member
    have stackIs : after.memory.stackOf u = s.memory.stackOf u := by
      rw [isAfter]
      exact Function.update_of_ne (still u member).2 _ _
    unfold Board.stackOf
    rw [stackIs, idleIs]
  refine ⟨fresh, registryIs, ?_, ?_, own, regions, ?_, ?_⟩
  · rw [isAfter]
    exact current
  · rw [isAfter]
  · have aligned := @MemoryCoherent.stack_aligned image after tcb kept listed
    have covers := created.covers
    rw [own] at aligned
    rw [Stack.high_eq aligned (roundedStack_dvd _)]
    unfold minStackSize at large
    simp only
    omega
  · intro u member
    obtain ⟨also, different⟩ := still u member
    have apart := @MemoryCoherent.stacks_apart image after tcb u kept listed also different
    rw [regions u member, own] at apart
    exact apart

section Installed

variable {tcb u : Addr} {stack : Stack} {entry : Word}

theorem Installed.executing_eq (new : Installed image s after tcb stack entry) :
    after.executing = s.executing := by
  unfold Board.executing
  rw [new.current, new.cpu]
  rfl

theorem Installed.ne (new : Installed image s after tcb stack entry)
    (member : u ∈ s.kernel.taskRegistry) : u ≠ tcb := by
  rintro rfl
  exact new.fresh member

theorem Installed.agree (new : Installed image s after tcb stack entry)
    (member : u ∈ s.kernel.taskRegistry) :
    AgreeOn after.cpu.words s.cpu.words (s.stackOf image u).base (s.stackOf image u).high := by
  intro place above below
  have apart := new.apart u member
  rw [new.cpu]
  exact buildStack_outside new.room (by omega)

theorem Installed.stackPtr_eq (new : Installed image s after tcb stack entry)
    (member : u ∈ s.kernel.taskRegistry) : after.cpu.stackPtr u = s.cpu.stackPtr u := by
  rw [new.cpu, buildStack_stackPtr]
  exact Function.update_of_ne (new.ne member) _ _

theorem Installed.stackPtr_own (new : Installed image s after tcb stack entry) :
    after.cpu.stackPtr tcb = stack.high - 64 := by
  rw [new.cpu, buildStack_stackPtr]
  exact Function.update_self _ _ _

theorem Installed.contextOf_eq (new : Installed image s after tcb stack entry)
    (holds : BoardCoherent image s) (member : u ∈ s.kernel.taskRegistry) :
    after.contextOf image u = s.contextOf image u := by
  by_cases executing : s.executing = some u
  · have low := (holds.running u executing).room.low
    have tail := (new.agree member).mono (show _ ≤ s.cpu.psp by omega) (Nat.le_refl _)
    rw [contextOf_executing executing, contextOf_executing (new.executing_eq.trans executing),
      new.regions u member]
    rw [new.cpu] at tail ⊢
    unfold Cpu.context
    rw [← excerpt_congr tail]
    rfl
  · rw [contextOf_suspended executing,
      contextOf_suspended (by rw [new.executing_eq]; exact executing), new.regions u member,
      new.stackPtr_eq member]
    exact (holds.saved u member executing).context_eq (new.agree member)

theorem Installed.contextOf_own (new : Installed image s after tcb stack entry)
    (holds : BoardCoherent image s) : after.contextOf image tcb = firstContext image stack entry := by
  have suspended : after.executing ≠ some tcb := by
    rw [new.executing_eq]
    exact fun executing => new.fresh (holds.executing_mem executing)
  rw [contextOf_suspended suspended, new.stackPtr_own, new.own, new.cpu]
  exact buildStack_savedContext new.room

theorem Installed.saved (new : Installed image s after tcb stack entry)
    (holds : BoardCoherent image s) (member : u ∈ after.kernel.taskRegistry)
    (suspended : after.executing ≠ some u) :
    Saved after.cpu.words (after.stackOf image u) (after.cpu.stackPtr u) := by
  rw [new.executing_eq] at suspended
  rw [new.registry, List.mem_append, List.mem_singleton] at member
  rcases member with old | rfl
  · rw [new.regions u old, new.stackPtr_eq old]
    exact (holds.saved u old suspended).congr (new.agree old)
  · rw [new.stackPtr_own, new.own, new.cpu]
    exact buildStack_saved new.room

theorem Installed.coherent (new : Installed image s after tcb stack entry)
    (holds : BoardCoherent image s) (kept : MemoryCoherent after.memory) :
    BoardCoherent image after := by
  refine ⟨kept, fun t executing => ?_, fun t member => new.saved holds member, ?_⟩
  · rw [new.executing_eq] at executing
    have ready := holds.running t executing
    rw [new.regions t (holds.executing_mem executing), new.cpu]
    exact ⟨ready.onPsp, ready.base, ready.room, ready.clear⟩
  · rw [new.current, new.cpu]
    exact holds.started

theorem Installed.manages (new : Installed image s after tcb stack entry)
    (holds : BoardCoherent image s) (kept : MemoryCoherent after.memory) :
    BoardManages image s after := by
  refine ⟨new.coherent holds kept, ?_⟩
  have spawned := @threads_update image s after tcb new.executing_eq
    (fun u => by
      rw [new.registry, List.mem_append, List.mem_singleton]
      exact or_comm)
    (fun u member _ => new.contextOf_eq holds member)
  rw [spawned]
  exact .spawns tcb _ (if_neg new.fresh)

end Installed

theorem BoardCoherent.newTask (holds : BoardCoherent image s) {taskFunc : Option Nat}
    {priority stackSize tcb stk : Nat} {kernel : Kernel} {heap : Heap}
    (created : Created s.memory taskFunc priority stackSize tcb stk kernel heap)
    (large : minStackSize ≤ stackSize)
    (kept : MemoryCoherent (s.withTask image kernel heap taskFunc stackSize tcb stk).memory) :
    NewTask image s (s.withTask image kernel heap taskFunc stackSize tcb stk) tcb
      (BitVec.ofNat 32 (taskFunc.getD 0)) := by
  have new := holds.installed created large kept
  refine ⟨new.manages holds kept, new.fresh, ?_, fun u member =>
    ⟨new.regions u member, new.agree member⟩, ?_, ?_⟩
  · intro t unlisted now
    rw [new.registry, List.mem_append, List.mem_singleton] at now
    exact now.resolve_left unlisted
  · rw [new.own, new.cpu]
    exact buildStack_canary new.room
  · rw [new.own]
    exact new.contextOf_own holds

def BoardAction.computes : BoardAction → Bool
  | .execute _ _ _ _ => true
  | _ => false

theorem BoardCoherent.manages (holds : BoardCoherent image s) {action : BoardAction}
    (managing : action.computes = false) (allowed : BoardAllowed image s action)
    (taken : s.advance image action = some after) (returns : after.overflow = none) :
    BoardManages image s after := by
  cases holds.moves allowed taken with
  | executes => cases managing
  | serves _ kept frame => exact holds.service kept frame
  | creates large created kept => exact (holds.newTask created large kept).manages
  | ticks returned => exact holds.sysTick returned
  | halts stops =>
      rw [returns] at stops
      cases stops
  | pends executing returned => exact holds.pendSv executing returned
  | starts onMain returned => exact holds.svc onMain returned

theorem BoardCoherent.step (holds : BoardCoherent image s) {action : BoardAction}
    (allowed : BoardAllowed image s action) (taken : s.advance image action = some after)
    (returns : after.overflow = none) : BoardRefines image s after := by
  cases computing : action.computes with
  | false => exact (holds.manages computing allowed taken returns).refines
  | true =>
      cases action with
      | execute callee frame psp writes =>
          cases taken
          exact holds.execute allowed
      | create taskFunc priority stackSize => cases computing
      | service action => cases computing
      | sysTick => cases computing
      | pendSv => cases computing
      | svc => cases computing

theorem boardStep_returns {action : BoardAction} (taken : boardStep image s action = some after) :
    s.overflow = none ∧ s.advance image action = some after := by
  unfold boardStep at taken
  split at taken
  · cases taken
  · rename_i running
    exact ⟨running, taken⟩

theorem idleStack_large (image : Image) :
    (⟨image.idleStack, idleStackSize⟩ : Stack).base + 72 ≤
      (⟨image.idleStack, idleStackSize⟩ : Stack).high := by
  rw [Stack.high_eq image.aligned (show 8 ∣ idleStackSize by decide)]
  exact Nat.add_le_add_left (show 72 ≤ idleStackSize by decide) _

theorem BoardBooted.coherent (booted : BoardBooted image s) : BoardCoherent image s := by
  have kept := booted.memory.memoryCoherent
  have nobody : ∀ t, s.executing ≠ some t := by
    intro t
    unfold Board.executing
    rw [booted.main]
    exact (Option.some_ne_none t).symm
  refine ⟨kept, fun t executing => absurd executing (nobody t), ?_, ?_⟩
  · intro t member _
    rcases kept.live_or_idle member with ⟨live, _⟩ | isIdle
    · rw [booted.memory.started.2] at live
      exact absurd live List.not_mem_nil
    · obtain ⟨before, built⟩ := booted.idle t isIdle.symm
      rw [stackOf_idle isIdle, built, buildStack_stackPtr, Function.update_self]
      exact buildStack_saved (idleStack_large image)
  · obtain ⟨start, idle, _, _, core, _⟩ := booted.memory.started.1.spec
    have current : s.kernel.currentTcb = none := by
      change s.memory.system.kernel.currentTcb = none
      rw [core]
      rfl
    rw [booted.main, current]
    exact iff_of_false Bool.false_ne_true (not_not_intro rfl)

end Steps

abbrev BoardReachable (image : Image) : Board → Prop :=
  Reachable (BoardBooted image) (boardStep image) (BoardAllowed image)

theorem BoardReachable.coherent {image : Image} {s : Board} (reached : BoardReachable image s)
    (running : s.overflow = none) : BoardCoherent image s := by
  refine Transition.Reachable.invariant (fun s => s.overflow = none → BoardCoherent image s)
    (fun _ booted _ => booted.coherent) ?_ reached running
  intro s action after holds allowed taken returns
  obtain ⟨before, advanced⟩ := boardStep_returns taken
  exact ((holds before).step allowed advanced returns).coherent

/-! ### Isolation -/

/-- Every step of the board is one of the threads, and where the thread that has the
processor does not compute for itself, no context changes. -/
theorem board_refines_threads {image : Image} {s after : Board} {action : BoardAction}
    (reached : BoardReachable image s) (allowed : BoardAllowed image s action)
    (taken : boardStep image s action = some after) (returns : after.overflow = none) :
    (s.threads image).Step (after.threads image) ∧
      (action.computes = false → (s.threads image).Managed (after.threads image)) := by
  obtain ⟨running, advanced⟩ := boardStep_returns taken
  have holds := BoardReachable.coherent reached running
  exact ⟨(holds.step allowed advanced returns).taken,
    fun managing => (holds.manages managing allowed advanced returns).managed⟩

theorem first_creation_refines_threads :
    ∃ after, boardStep sampleImage bootedBoard (.create (some 0x08000301) 100 256) = some after ∧
      96 ∈ after.kernel.taskRegistry ∧
      (bootedBoard.threads sampleImage).Managed (after.threads sampleImage) := by
  have allowed : BoardAllowed sampleImage bootedBoard (.create (some 0x08000301) 100 256) :=
    boardAllowed_of_check _ _ (by decide +kernel)
  have found : ((boardStep sampleImage bootedBoard (.create (some 0x08000301) 100 256)).any
      fun after => decide (96 ∈ after.kernel.taskRegistry ∧ after.overflow.isNone = true)) =
        true := by decide +kernel
  simp only [decide_eq_true_eq, Option.any_eq_true] at found
  obtain ⟨after, taken, listed, running⟩ := found
  exact ⟨after, taken, listed, (board_refines_threads (.initial boardBooted_bootedBoard) allowed
    taken (Option.isNone_iff_eq_none.mp running)).2 rfl⟩

/-- A run during which a task is registered and does not have the processor. -/
inductive BoardSuspends (image : Image) (t : Addr) : Board → Board → Prop where
  | start {s : Board} (listed : t ∈ s.kernel.taskRegistry) : BoardSuspends image t s s
  | next {first s after : Board} {action : BoardAction} (before : BoardSuspends image t first s)
      (suspended : s.executing ≠ some t) (allowed : BoardAllowed image s action)
      (taken : boardStep image s action = some after)
      (listed : t ∈ after.kernel.taskRegistry) : BoardSuspends image t first after

section Resumption

variable {image : Image} {first s after : Board} {t : Addr}

theorem threads_context_ne_none :
    (s.threads image).context t ≠ none ↔ t ∈ s.kernel.taskRegistry := by
  unfold Board.threads
  simp only
  split
  · rename_i listed
    exact iff_of_true (Option.some_ne_none _) listed
  · rename_i unlisted
    exact iff_of_false (not_not_intro rfl) unlisted

theorem BoardSuspends.listed (run : BoardSuspends image t first s) :
    t ∈ s.kernel.taskRegistry := by
  cases run with
  | start listed => exact listed
  | next _ _ _ _ listed => exact listed

theorem BoardSuspends.reachable (run : BoardSuspends image t first s)
    (reached : BoardReachable image first) : BoardReachable image s := by
  induction run with
  | start _ => exact reached
  | next _ _ allowed taken _ ih => exact ih.next allowed taken

theorem BoardSuspends.threads (run : BoardSuspends image t first s)
    (reached : BoardReachable image first) (running : s.overflow = none) :
    Threads.Suspends t (first.threads image) (s.threads image) := by
  induction run with
  | start listed => exact .start (threads_context_ne_none.mpr listed)
  | next before suspended allowed taken listed ih =>
      obtain ⟨was, advanced⟩ := boardStep_returns taken
      have holds := BoardReachable.coherent (before.reachable reached) was
      exact (ih was).next suspended (holds.step allowed advanced running).taken
        (threads_context_ne_none.mpr listed)

theorem BoardSuspends.contextOf_eq (run : BoardSuspends image t first s)
    (reached : BoardReachable image first) (running : s.overflow = none)
    (listed : t ∈ first.kernel.taskRegistry) :
    s.contextOf image t = first.contextOf image t := by
  have same := (run.threads reached running).context_eq
  rw [threads_context run.listed, threads_context listed] at same
  exact Option.some.inj same

theorem cpu_of_contextOf_eq (executes : first.executing = some t) (again : s.executing = some t)
    (same : s.contextOf image t = first.contextOf image t) :
    s.cpu.callee = first.cpu.callee ∧ s.cpu.frame = first.cpu.frame ∧
      s.cpu.psp = first.cpu.psp ∧
      AgreeOn s.cpu.words first.cpu.words first.cpu.psp (first.stackOf image t).high := by
  rw [contextOf_executing executes, contextOf_executing again] at same
  unfold Cpu.context at same
  simp only [Context.mk.injEq] at same
  obtain ⟨callee, frame, psp, high, stack⟩ := same
  refine ⟨callee, frame, psp, fun place above below => ?_⟩
  have word := congrFun stack place
  unfold excerpt at word
  rwa [psp, high, if_pos ⟨above, below⟩, if_pos ⟨above, below⟩] at word

/-- A task that PendSV has switched away finds its registers and its stack again when it
next has the processor. -/
theorem resumes_as_left {left : Board} (reached : BoardReachable image first)
    (executes : first.executing = some t) (away : boardStep image first .pendSv = some left)
    (meanwhile : BoardSuspends image t left s) (running : s.overflow = none)
    (again : s.executing = some t) :
    s.cpu.callee = first.cpu.callee ∧ s.cpu.frame = first.cpu.frame ∧
      s.cpu.psp = first.cpu.psp ∧
      AgreeOn s.cpu.words first.cpu.words first.cpu.psp (first.stackOf image t).high := by
  obtain ⟨was, advanced⟩ := boardStep_returns away
  have holds := BoardReachable.coherent reached was
  have member := holds.executing_mem executes
  have onPsp : BoardAllowed image first .pendSv := (holds.running t executes).onPsp
  have leaves : left.overflow = none ∧ left.kernel.taskRegistry = first.kernel.taskRegistry := by
    cases holds.moves onPsp advanced with
    | serves calls _ _ => cases calls
    | pends _ returned => exact ⟨was, (schedulerGetNext_sameTasks returned).1.registry⟩
  have listed : t ∈ left.kernel.taskRegistry := by
    rw [leaves.2]
    exact member
  have saved : left.contextOf image t = first.contextOf image t := by
    have kept := (holds.manages rfl onPsp advanced leaves.1).managed.context_eq
      (threads_context_ne_none.mpr member) (threads_context_ne_none.mpr listed)
    rw [threads_context listed, threads_context member] at kept
    exact Option.some.inj kept
  have same := meanwhile.contextOf_eq (reached.next onPsp away) running listed
  exact cpu_of_contextOf_eq executes again (same.trans saved)

def interruptedTask : List BoardAction :=
  [.create (some 0x08000301) 100 256, .create (some 0x08000401) 100 256, .svc,
    .execute (fun index => BitVec.ofNat 32 (index.val + 1)) (fun _ => 0x01000000#32) 420
      [(420, 7#32), (424, 8#32)], .sysTick]

theorem resumes_after_another_task :
    ∃ before left back : Board, before.cpu.callee 0 = 1#32 ∧ before.cpu.psp = 420 ∧
      left.executing = some 448 ∧ back.executing = some 96 ∧
      back.cpu.callee = before.cpu.callee ∧ back.cpu.frame = before.cpu.frame ∧
      back.cpu.psp = before.cpu.psp ∧
      AgreeOn back.cpu.words before.cpu.words before.cpu.psp
        (before.stackOf sampleImage 96).high := by
  obtain ⟨before, reached, found⟩ :=
    @exists_reachable_of_run Board BoardAction (BoardBooted sampleImage) (boardStep sampleImage)
      (BoardAllowed sampleImage) (boardCheck sampleImage)
      (fun s => decide (s.executing = some 96 ∧ s.cpu.callee 0 = 1#32 ∧ s.cpu.psp = 420) &&
        (boardStep sampleImage s .pendSv).any fun left : Board =>
          decide (left.executing = some 448 ∧ 96 ∈ left.kernel.taskRegistry ∧
            left.cpu.onPsp = true) &&
          (boardStep sampleImage left .pendSv).any fun back : Board =>
            decide (back.executing = some 96 ∧ 96 ∈ back.kernel.taskRegistry ∧
              back.overflow.isNone = true))
      boardAllowed_of_check interruptedTask bootedBoard boardBooted_bootedBoard
      (by decide +kernel)
  simp only [Bool.and_eq_true, decide_eq_true_eq, Option.any_eq_true] at found
  obtain ⟨⟨executes, callee, psp⟩, left, away, ⟨other, listed, onPsp⟩, back, taken, again, still,
    running⟩ := found
  have elsewhere : left.executing ≠ some 96 := by
    rw [other]
    decide
  have meanwhile : BoardSuspends sampleImage 96 left back :=
    @BoardSuspends.next sampleImage 96 left left back .pendSv (.start listed) elsewhere onPsp
      taken still
  exact ⟨before, left, back, callee, psp, other, again,
    resumes_as_left reached executes away meanwhile (Option.isNone_iff_eq_none.mp running) again⟩

/-- A new task begins at its function: with zero in r0 to r12, the trap in lr, the Thumb
bit in xPSR and the whole of its stack. -/
theorem begins_at_its_function {created : Board} {taskFunc : Option Nat}
    {priority stackSize : Nat} (reached : BoardReachable image first)
    (allowed : BoardAllowed image first (.create taskFunc priority stackSize))
    (creation : boardStep image first (.create taskFunc priority stackSize) = some created)
    (isNew : t ∉ first.kernel.taskRegistry) (meanwhile : BoardSuspends image t created s)
    (listed : t ∈ created.kernel.taskRegistry) (running : s.overflow = none)
    (begins : s.executing = some t) :
    s.cpu.callee = (fun _ => 0) ∧
      s.cpu.frame = firstFrame image (BitVec.ofNat 32 (taskFunc.getD 0)) ∧
      s.cpu.psp = (s.stackOf image t).high := by
  obtain ⟨was, advanced⟩ := boardStep_returns creation
  have holds := BoardReachable.coherent reached was
  generalize isAction : BoardAction.create taskFunc priority stackSize = action at advanced
  subst isAction
  cases holds.moves allowed advanced with
  | serves _ _ frame => exact absurd (frame.listed_before listed) isNew
  | creates large task kept =>
      have new := holds.newTask task large kept
      have isTask := new.only t isNew listed
      subst isTask
      have same := meanwhile.contextOf_eq (reached.next allowed creation) running listed
      rw [new.context, contextOf_executing begins] at same
      unfold Cpu.context firstContext at same
      simp only [Context.mk.injEq] at same
      obtain ⟨callee, frame, psp, high, _⟩ := same
      exact ⟨callee, frame, psp.trans high.symm⟩

theorem begins_after_svc :
    ∃ after : Board, after.executing = some 96 ∧ after.cpu.callee = (fun _ => 0) ∧
      after.cpu.frame = firstFrame sampleImage 0x08000301#32 ∧
      after.cpu.psp = (after.stackOf sampleImage 96).high := by
  have allowed : BoardAllowed sampleImage bootedBoard (.create (some 0x08000301) 100 256) :=
    boardAllowed_of_check _ _ (by decide +kernel)
  have found : ((boardStep sampleImage bootedBoard (.create (some 0x08000301) 100 256)).any
      fun created => decide (96 ∈ created.kernel.taskRegistry ∧ created.executing = none) &&
        (boardStep sampleImage created .svc).any fun after =>
          decide (after.executing = some 96 ∧ 96 ∈ after.kernel.taskRegistry ∧
            after.overflow.isNone = true)) = true := by decide +kernel
  simp only [Bool.and_eq_true, decide_eq_true_eq, Option.any_eq_true] at found
  obtain ⟨created, creation, ⟨listed, onMain⟩, after, started, begins, still, running⟩ := found
  have suspended : created.executing ≠ some 96 := by
    rw [onMain]
    decide
  have meanwhile : BoardSuspends sampleImage 96 created after :=
    @BoardSuspends.next sampleImage 96 created created after .svc (.start listed) suspended trivial
      started still
  exact ⟨after, begins, begins_at_its_function (.initial boardBooted_bootedBoard) allowed creation
    (by decide +kernel) meanwhile listed (Option.isNone_iff_eq_none.mp running) begins⟩

end Resumption

end MicrokernelRtos
