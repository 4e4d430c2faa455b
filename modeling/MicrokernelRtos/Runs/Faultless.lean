/-
What the kernel answers, over the runs of the board.

A walk along a ring, a wait list or the list of the free blocks stops with a result, or
follows a link that is NULL, or never stops.  In a state that a run has reached only the
first happens: a call, a tick or a switch has no result only where nobody can ask for it,
because the caller is BLOCKED, or the task to be deleted is not there, or the scheduler
has been started before.
-/

import MicrokernelRtos.Runs.StackGuard

namespace MicrokernelRtos

open Tiling Transition

def MemoryAction.offered (s : TaskMemory) : MemoryAction → Bool
  | .delete tcb => canCall s.system.kernel && decide (tcb ∈ s.system.live)
  | .kernel (.call _) => canCall s.system.kernel
  | .kernel .yield => canCall s.system.kernel
  | .alloc _ => true
  | .free _ => true
  | .write _ _ => true
  | _ => false

/-- What can happen next: the thread computes or calls, or an exception is taken.  `svc`
is for `main` alone. -/
def BoardAction.offered (s : Board) : BoardAction → Bool
  | .execute _ _ _ _ => true
  | .create _ _ _ => canCall s.kernel
  | .service action => action.offered s.memory
  | .sysTick => true
  | .pendSv => true
  | .svc => !s.cpu.onPsp

section Calls

variable {s : TaskMemory}

theorem MemoryCoherent.create_returns (holds : MemoryCoherent s) {taskFunc : Option Nat}
    {priority stackSize : Nat} (allowed : MemoryAllowed s (.create taskFunc priority stackSize)) :
    (taskCreateOnHeap s.system.kernel s.heap taskFunc priority stackSize).isSome = true := by
  obtain ⟨isSize, found⟩ := allowed
  obtain ⟨free, tiled⟩ := holds.tiled
  by_cases accepted : Accepted s.system.kernel taskFunc stackSize
  · rcases @MemoryCoherent.create s free taskFunc priority stackSize holds tiled accepted isSize
        (found free tiled.lists accepted) with
      ⟨_, heap, _, refused, _, _⟩ | ⟨_, tcb, stk, kernel, heap, returned, _⟩
    · rw [refused]
      rfl
    · rw [returned]
      rfl
  · rw [taskCreateOnHeap_refused accepted]
    rfl

theorem MemoryCoherent.delete_returns (holds : MemoryCoherent s) {tcb : Addr}
    (live : tcb ∈ s.system.live) :
    (taskDeleteOnHeap s.system.kernel s.heap tcb (s.stackOf tcb).ptr).isSome = true := by
  obtain ⟨free, tiled⟩ := holds.tiled
  obtain ⟨status, result, returned, _⟩ :=
    @taskDelete_keeps s.system.kernel noWindow tcb holds.system.coherent fun _ _ => rfl
  unfold taskDeleteOnHeap
  rw [returned, Option.bind_some]
  by_cases isOk : status = .ok
  · have own := tiled.perm (allocations_perm (List.perm_cons_erase live))
    obtain ⟨last, _, bothFreed, _⟩ := own.releaseBoth
    have freed : freeBoth s.heap (some (s.stackOf tcb).ptr) (some tcb) = some last := bothFreed
    rw [if_pos isOk, freed]
    rfl
  · rw [if_neg isOk]
    rfl

theorem SystemCoherent.call_returns {system : System} (holds : SystemCoherent system) (call : Call)
    (bucket : UnlockKeepsBucket system (.call call)) :
    (step system (.call call)).isSome = canCall system.kernel := by
  apply isSome_guarded
  intro can
  obtain ⟨outcome, result, returned, _⟩ := apiCall_coherent holds bucket can
  rw [returned]
  rfl

theorem MemoryCoherent.returns (holds : MemoryCoherent s) {action : MemoryAction}
    (isService : action.isService = true) (allowed : MemoryAllowed s action) :
    (memoryStep s action).isSome = action.offered s := by
  obtain ⟨free, tiled⟩ := holds.tiled
  cases action with
  | create taskFunc priority stackSize => cases isService
  | delete tcb =>
      apply isSome_guarded
      intro guards
      rw [Option.isSome_map]
      exact holds.delete_returns (of_decide_eq_true (Bool.and_eq_true_iff.mp guards).2)
  | kernel action =>
      cases action with
      | call call =>
          simp only [memoryStep, Action.leavesTasks, if_true, Option.isSome_map]
          exact holds.system.call_returns call allowed
      | yield =>
          simp only [memoryStep, Action.leavesTasks, if_true, Option.isSome_map]
          exact isSome_guarded fun _ => rfl
      | create _ _ _ _ _ => cases isService
      | delete _ => cases isService
      | sysTick => cases isService
      | getNext => cases isService
      | dispatch _ => cases isService
  | alloc size =>
      obtain ⟨result, _, stepped, _⟩ := tiled.alloc_step allowed
      obtain ⟨granted, returned, _⟩ := Option.map_eq_some_iff.mp stepped
      have request : heapAlloc s.heap size = some granted := returned
      simp only [memoryStep, request]
      rfl
  | free allocation =>
      obtain ⟨heap, freed, _⟩ := (tiled.perm (app_perm (List.perm_cons_erase allowed))).release
      simp only [memoryStep, freed]
      rfl
  | write size next => rfl

theorem MemoryAction.offered_false {action : MemoryAction} (other : ¬ action.isService = true) :
    action.offered s = false := by
  cases action with
  | create _ _ _ => rfl
  | delete _ => exact absurd rfl other
  | kernel action =>
      cases action with
      | call _ => exact absurd rfl other
      | yield => exact absurd rfl other
      | create _ _ _ _ _ => rfl
      | delete _ => rfl
      | sysTick => rfl
      | getNext => rfl
      | dispatch _ => rfl
  | alloc _ => exact absurd rfl other
  | free _ => exact absurd rfl other
  | write _ _ => exact absurd rfl other

end Calls

section Runs

variable {image : Image} {s : Board} {action : BoardAction}

theorem BoardCoherent.exception_returns (holds : BoardCoherent image s)
    (handler : Kernel → Cpu → Option (Kernel × Cpu))
    (asks : ∀ kernel cpu, (schedulerGetNext kernel).isSome = true →
      (handler kernel cpu).isSome = true) :
    (takeException handler s.kernel s.cpu).isSome = true := by
  obtain ⟨sel, next, returned, _⟩ := schedulerGetNext_keeps holds.memory.system.coherent
  unfold takeException
  rw [Option.isSome_map]
  exact asks s.kernel (exceptionEntry s.cpu) (Option.isSome_of_eq_some returned)

/-- In every run of the board a permitted action has no result only where nobody can ask
for it: no call of the kernel, no tick and no switch follows a link that is NULL or a
list that does not end. -/
theorem answers_whoever_asks (reached : BoardReachable image s) (running : s.overflow = none)
    (allowed : BoardAllowed image s action) :
    (boardStep image s action).isSome = action.offered s := by
  have holds := BoardReachable.coherent reached running
  have advances : boardStep image s action = s.advance image action := by
    unfold boardStep
    rw [running]
  rw [advances]
  cases action with
  | execute callee frame psp writes => rfl
  | create taskFunc priority stackSize =>
      apply isSome_guarded
      intro _
      rw [Option.isSome_map]
      exact holds.memory.create_returns allowed
  | service action =>
      simp only [Board.advance]
      by_cases isService : action.isService = true
      · rw [if_pos isService, Option.isSome_map]
        exact holds.memory.returns isService allowed
      · rw [if_neg isService]
        exact (MemoryAction.offered_false isService).symm
  | sysTick =>
      obtain ⟨after, ticked, _⟩ := holds.tick running
      rw [← advances, ticked]
      rfl
  | pendSv =>
      simp only [Board.advance, Option.isSome_map]
      apply holds.exception_returns
      intro kernel cpu found
      unfold pendSvHandler
      rw [Option.isSome_map]
      exact found
  | svc =>
      simp only [Board.advance, BoardAction.offered]
      by_cases onPsp : s.cpu.onPsp = true
      · rw [if_pos onPsp, onPsp]
        rfl
      · rw [if_neg onPsp, Option.isSome_map, Bool.eq_false_of_not_eq_true onPsp]
        apply holds.exception_returns
        intro kernel cpu found
        unfold svcHandler
        rw [Option.isSome_map]
        exact found

theorem answers_post_to_waiter :
    ∃ s : Board, s.executing = some 448 ∧ s.kernel.waitHead (.semaphore 0) = some 96 ∧
      (boardStep sampleImage s (.service (.kernel (.call (.post 0))))).isSome = true := by
  obtain ⟨s, reached, found⟩ :=
    @exists_reachable_of_run Board BoardAction (BoardBooted sampleImage) (boardStep sampleImage)
      (BoardAllowed sampleImage) (boardCheck sampleImage)
      (fun s => decide (s.executing = some 448 ∧ s.overflow.isNone = true ∧
        s.kernel.waitHead (.semaphore 0) = some 96 ∧
        MemoryAction.offered s.memory (.kernel (.call (.post 0))) = true))
      boardAllowed_of_check
      [.create (some 0x08000301) 100 256, .create (some 0x08000401) 100 256, .svc,
        .service (.kernel (.call (.wait 0 0))), .pendSv]
      bootedBoard boardBooted_bootedBoard (by decide +kernel)
  obtain ⟨executes, running, waits, offered⟩ := of_decide_eq_true found
  have allowed : BoardAllowed sampleImage s (.service (.kernel (.call (.post 0)))) :=
    fun _ _ _ => trivial
  refine ⟨s, executes, waits, ?_⟩
  rw [answers_whoever_asks reached (Option.isNone_iff_eq_none.mp running) allowed]
  exact offered

end Runs

end MicrokernelRtos
