/-
The check of the stacks in the tick.

The lowest word of every stack holds the canary.  A switch, a tick and a creation write
above it or on a stack of their own, so that the check fails only where a task has
overwritten its canary itself, and then at the first tick, whoever has run in between.
What the check reports is the first such task in the order of the registry.
-/

import MicrokernelRtos.Runs.Contexts
import Mathlib.Data.List.Find

namespace MicrokernelRtos

open Transition Words

/-! ### What the check finds -/

def Board.guardOf (image : Image) (s : Board) (t : Addr) : Word :=
  s.cpu.words (s.stackOf image t).base

/-- The first registered task without its canary, with the word that stands there. -/
def Board.firstBroken (image : Image) (s : Board) : Option (Addr × Word) :=
  (s.kernel.taskRegistry.find? fun t => decide (s.guardOf image t ≠ stackCanary)).map
    fun t => (t, s.guardOf image t)

theorem stackCheck_eq (stackOf : Addr → Stack) (words : Nat → Word) (tasks : List Addr) :
    stackCheck stackOf words tasks =
      (tasks.find? fun t => decide (words (stackOf t).base ≠ stackCanary)).map
        fun t => (t, words (stackOf t).base) := by
  induction tasks with
  | nil => rfl
  | cons t rest ih =>
      rw [stackCheck, List.find?_cons]
      by_cases broken : words (stackOf t).base ≠ stackCanary
      · rw [if_pos broken, decide_eq_true broken]
        rfl
      · rw [if_neg broken, decide_eq_false broken]
        exact ih

section Guards

variable {image : Image} {s after : Board} {t u : Addr} {action : BoardAction}

theorem BoardCoherent.stack_nonempty (holds : BoardCoherent image s)
    (member : u ∈ s.kernel.taskRegistry) :
    (s.stackOf image u).base < (s.stackOf image u).high := by
  by_cases executing : s.executing = some u
  · have room := (holds.running u executing).room
    have low := room.low
    have high := room.high
    omega
  · have saved := holds.saved u member executing
    have low := saved.low
    have within := saved.within
    omega

theorem BoardCoherent.guard_outside (holds : BoardCoherent image s)
    (executes : s.executing = some t) (member : u ∈ s.kernel.taskRegistry) :
    (s.stackOf image u).base < (s.stackOf image t).base + 8 ∨
      s.cpu.psp ≤ (s.stackOf image u).base := by
  by_cases same : u = t
  · subst same
    omega
  · have ready := holds.running t executes
    have high := ready.room.high
    have nonempty := holds.stack_nonempty member
    have apart := @MemoryCoherent.stacks_apart image s t u holds.memory
      (holds.executing_mem executes) member same
    omega

theorem BoardCoherent.entry_guard (holds : BoardCoherent image s)
    (member : u ∈ s.kernel.taskRegistry) :
    (exceptionEntry s.cpu).words (s.stackOf image u).base = s.guardOf image u := by
  cases isExecuting : s.executing with
  | none =>
      unfold exceptionEntry
      rw [if_neg (by rw [holds.main isExecuting]; decide)]
      rfl
  | some t =>
      have ready := holds.running t isExecuting
      have outside := holds.guard_outside isExecuting member
      have low := ready.room.low
      have base := ready.base
      rw [ready.entry]
      apply store_outside
      omega

theorem BoardCoherent.stackCheck_woken (holds : BoardCoherent image s) {woken : Kernel}
    (wake : rtosWakeDelayed (rtosTickIncrement s.kernel) = some woken) :
    rtosStackCheckAll woken (s.stackOf image) (exceptionEntry s.cpu) = s.firstBroken image := by
  have registry : woken.taskRegistry = s.kernel.taskRegistry := by
    rw [(wakeLoop_wakes wake).fields]
    rfl
  have guards : ∀ t ∈ s.kernel.taskRegistry,
      (exceptionEntry s.cpu).words (s.stackOf image t).base = s.guardOf image t :=
    fun t member => holds.entry_guard member
  unfold rtosStackCheckAll
  rw [registry, stackCheck_eq]
  unfold Board.firstBroken
  have searched : (s.kernel.taskRegistry.find? fun t => decide
      ((exceptionEntry s.cpu).words (s.stackOf image t).base ≠ stackCanary)) =
      s.kernel.taskRegistry.find? fun t => decide (s.guardOf image t ≠ stackCanary) := by
    apply List.find?_congr
    intro t member
    rw [guards t member]
  rw [searched]
  cases found : s.kernel.taskRegistry.find? fun t => decide (s.guardOf image t ≠ stackCanary) with
  | none => rfl
  | some t =>
      rw [Option.map_some, Option.map_some, guards t (List.mem_of_find?_eq_some found)]

/-- A tick in a coherent state: it returns where every canary is in its place. -/
theorem BoardCoherent.tick (holds : BoardCoherent image s) (running : s.overflow = none) :
    ∃ after, boardStep image s .sysTick = some after ∧
      after.overflow = s.firstBroken image := by
  obtain ⟨ticked, returned, _⟩ := sysTickHandler_keeps holds.memory.system.coherent
  obtain ⟨woken, wake, onward⟩ := Option.bind_eq_some_iff.mp returned
  obtain ⟨sliced, slice, _⟩ := Option.map_eq_some_iff.mp onward
  have wakes : rtosWakeDelayed (rtosTickIncrement s.kernel) = some woken := wake
  have checked := holds.stackCheck_woken wakes
  unfold boardStep
  rw [running]
  simp only [Board.advance, sysTickChecked, wakes, Option.bind_some, checked]
  cases s.firstBroken image with
  | none =>
      simp only [slice, Option.map_some]
      exact ⟨_, rfl, running⟩
  | some report =>
      simp only [Option.map_some]
      exact ⟨_, rfl, rfl⟩

/-! ### Who writes a canary -/

/-- The thread that has the processor does not write this word. -/
def BoardAction.spares (guard : Nat) : BoardAction → Prop
  | .execute _ _ _ writes => ∀ write ∈ writes, write.1 ≠ guard
  | _ => True

/-- A step leaves the canary of every task that is still there, unless the task that has
the processor writes to it. -/
theorem BoardCoherent.guard_kept (holds : BoardCoherent image s)
    (allowed : BoardAllowed image s action) (advanced : s.advance image action = some after)
    (returns : after.overflow = none) (member : u ∈ s.kernel.taskRegistry)
    (spares : action.spares (s.stackOf image u).base) :
    after.stackOf image u = s.stackOf image u ∧ after.guardOf image u = s.guardOf image u := by
  have of_words : after.stackOf image u = s.stackOf image u →
      after.cpu.words (s.stackOf image u).base = s.guardOf image u →
      after.stackOf image u = s.stackOf image u ∧
        after.guardOf image u = s.guardOf image u := by
    intro region word
    refine ⟨region, ?_⟩
    unfold Board.guardOf
    rw [region]
    exact word
  cases holds.moves allowed advanced with
  | executes => exact of_words rfl (writeAll_outside spares)
  | serves _ _ frame => exact of_words (frame.stackOf_eq u) rfl
  | creates large created kept =>
      obtain ⟨region, agree⟩ := (holds.newTask created large kept).others u member
      exact of_words region (agree _ (Nat.le_refl _) (holds.stack_nonempty member))
  | ticks returned =>
      apply of_words (withKernel_stackOf (sysTickHandler_quiet returned).idle _ u)
      change (exceptionReturn (exceptionEntry s.cpu)).words _ = _
      rw [(exceptionReturn_keeps _).1]
      exact holds.entry_guard member
  | halts stops =>
      rw [returns] at stops
      cases stops
  | @pends t sel next executes returned =>
      apply of_words (withKernel_stackOf (schedulerGetNext_sameTasks returned).1.idle _ u)
      change (exceptionReturn (loadContext (saveContext (some t)
        (exceptionEntry s.cpu)) sel)).words _ = _
      rw [(exceptionReturn_keeps _).1]
      exact (holds.running t executes).saves_outside t (holds.guard_outside executes member)
  | @starts sel next onMain returned =>
      apply of_words (withKernel_stackOf (schedulerGetNext_sameTasks returned).1.idle _ u)
      change (exceptionReturn (loadContext { s.cpu with onPsp := true } sel)).words _ = _
      rw [(exceptionReturn_keeps _).1]
      rfl

/-! ### Runs -/

/-- In every run the tick stops the system exactly where a canary is missing, and names
the first task in the order of the registry that has lost it. -/
theorem sysTick_reports_first_broken (reached : BoardReachable image s)
    (running : s.overflow = none) :
    ∃ after, boardStep image s .sysTick = some after ∧ after.overflow = s.firstBroken image :=
  (BoardReachable.coherent reached running).tick running

def overflowingTask : List BoardAction :=
  [.create (some 0x08000301) 100 256, .create (some 0x08000401) 100 256, .svc,
    .execute (fun _ => 0) (fun _ => 0x01000000#32) 420 [(184, 7#32)], .pendSv]

theorem sysTick_reports_overflowing_task :
    ∃ s after : Board, s.executing = some 448 ∧ boardStep sampleImage s .sysTick = some after ∧
      after.overflow = s.firstBroken sampleImage ∧
      s.firstBroken sampleImage = some (96, 7#32) := by
  obtain ⟨s, reached, found⟩ :=
    @exists_reachable_of_run Board BoardAction (BoardBooted sampleImage) (boardStep sampleImage)
      (BoardAllowed sampleImage) (boardCheck sampleImage)
      (fun s => decide (s.executing = some 448 ∧ s.overflow.isNone = true ∧
        s.firstBroken sampleImage = some (96, 7#32)))
      boardAllowed_of_check overflowingTask bootedBoard boardBooted_bootedBoard
      (by decide +kernel)
  obtain ⟨executes, running, broken⟩ := of_decide_eq_true found
  obtain ⟨after, taken, reports⟩ :=
    sysTick_reports_first_broken reached (Option.isNone_iff_eq_none.mp running)
  exact ⟨s, after, executes, taken, reports, broken⟩

/-- Runs in which no task writes to the lowest word of its stack. -/
def GuardAllowed (image : Image) (s : Board) (action : BoardAction) : Prop :=
  BoardAllowed image s action ∧
    ∀ t, s.executing = some t → action.spares (s.stackOf image t).base

theorem BoardCoherent.spares_all (holds : BoardCoherent image s)
    (allowed : GuardAllowed image s action) (member : u ∈ s.kernel.taskRegistry) :
    action.spares (s.stackOf image u).base := by
  cases action with
  | execute callee frame psp writes =>
      intro write inside same
      cases isExecuting : s.executing with
      | none =>
          have permitted := allowed.1
          simp only [BoardAllowed, isExecuting] at permitted
          rw [permitted.2] at inside
          exact absurd inside List.not_mem_nil
      | some t =>
          have permitted := allowed.1
          simp only [BoardAllowed, isExecuting] at permitted
          have bounds := permitted.2.2 write inside
          have own : ∀ write ∈ writes, write.1 ≠ (s.stackOf image t).base := allowed.2 t isExecuting
          by_cases isOwn : u = t
          · subst isOwn
            exact own write inside same
          · have nonempty := holds.stack_nonempty member
            have apart := @MemoryCoherent.stacks_apart image s t u holds.memory
              (holds.executing_mem isExecuting) member isOwn
            omega
  | create taskFunc priority stackSize => trivial
  | service action => trivial
  | sysTick => trivial
  | pendSv => trivial
  | svc => trivial

theorem BoardCoherent.listed_before (holds : BoardCoherent image s)
    (allowed : BoardAllowed image s action) (advanced : s.advance image action = some after)
    (returns : after.overflow = none) (listed : u ∈ after.kernel.taskRegistry) :
    u ∈ s.kernel.taskRegistry ∨ after.guardOf image u = stackCanary := by
  cases holds.moves allowed advanced with
  | executes => exact Or.inl listed
  | serves _ _ frame => exact Or.inl (frame.listed_before listed)
  | creates large created kept =>
      have task := holds.newTask created large kept
      by_cases old : u ∈ s.kernel.taskRegistry
      · exact Or.inl old
      · have isNew := task.only u old listed
        subst isNew
        exact Or.inr task.canary
  | ticks returned =>
      have registry := (sysTickHandler_quiet returned).registry
      exact Or.inl (registry ▸ listed)
  | halts stops =>
      rw [returns] at stops
      cases stops
  | pends _ returned =>
      have registry := (schedulerGetNext_sameTasks returned).1.registry
      exact Or.inl (registry ▸ listed)
  | starts _ returned =>
      have registry := (schedulerGetNext_sameTasks returned).1.registry
      exact Or.inl (registry ▸ listed)

theorem BoardCoherent.returns (holds : BoardCoherent image s) (running : s.overflow = none)
    (intact : ∀ t ∈ s.kernel.taskRegistry, s.guardOf image t = stackCanary)
    (allowed : BoardAllowed image s action) (taken : boardStep image s action = some after) :
    after.overflow = none := by
  obtain ⟨_, advanced⟩ := boardStep_returns taken
  cases holds.moves allowed advanced with
  | executes => exact running
  | serves _ _ _ => exact running
  | creates _ _ _ => exact running
  | ticks _ => exact running
  | pends _ _ => exact running
  | starts _ _ => exact running
  | halts stops =>
      obtain ⟨again, stepped, reports⟩ := holds.tick running
      cases taken.symm.trans stepped
      have none : s.firstBroken image = none := by
        unfold Board.firstBroken
        rw [Option.map_eq_none_iff, List.find?_eq_none]
        intro t member
        rw [intact t member]
        decide
      rw [reports, none]

/-- Where the tasks leave the lowest words of their stacks alone, the check never stops the
system: neither a switch nor an interrupt nor a creation ever writes over a canary. -/
theorem canaries_stay (reached : Reachable (BoardBooted image) (boardStep image)
    (GuardAllowed image) s) :
    s.overflow = none ∧ ∀ t ∈ s.kernel.taskRegistry, s.guardOf image t = stackCanary := by
  induction reached with
  | @initial s booted =>
      refine ⟨booted.overflow, fun t member => ?_⟩
      rcases booted.coherent.memory.live_or_idle member with ⟨live, _⟩ | isIdle
      · rw [booted.memory.started.2] at live
        exact absurd live List.not_mem_nil
      · obtain ⟨before, built⟩ := booted.idle t isIdle.symm
        unfold Board.guardOf
        rw [stackOf_idle isIdle, built]
        exact buildStack_canary (idleStack_large image)
  | @next s after action before allowed taken ih =>
      obtain ⟨running, intact⟩ := ih
      have reached : BoardReachable image s := before.mono fun _ _ permitted => permitted.1
      have holds := BoardReachable.coherent reached running
      obtain ⟨_, advanced⟩ := boardStep_returns taken
      have returns := holds.returns running intact allowed.1 taken
      refine ⟨returns, fun t listed => ?_⟩
      rcases holds.listed_before allowed.1 advanced returns listed with old | guarded
      · rw [(holds.guard_kept allowed.1 advanced returns old (holds.spares_all allowed old)).2]
        exact intact t old
      · exact guarded

instance decidableSparesGuard (guard : Nat) (action : BoardAction) :
    Decidable (action.spares guard) :=
  match action with
  | .execute _ _ _ writes => inferInstanceAs (Decidable (∀ write ∈ writes, write.1 ≠ guard))
  | .create _ _ _ => isTrue trivial
  | .service _ => isTrue trivial
  | .sysTick => isTrue trivial
  | .pendSv => isTrue trivial
  | .svc => isTrue trivial

theorem canaries_stay_after_a_switch :
    ∃ s, Reachable (BoardBooted sampleImage) (boardStep sampleImage) (GuardAllowed sampleImage) s ∧
      s.executing = some 448 ∧ s.cpu.stackPtr 96 = 352 ∧ s.overflow = none ∧
      ∀ t ∈ s.kernel.taskRegistry, s.guardOf sampleImage t = stackCanary := by
  obtain ⟨s, reached, found⟩ :=
    @exists_reachable_of_run Board BoardAction (BoardBooted sampleImage) (boardStep sampleImage)
      (GuardAllowed sampleImage)
      (fun s action => boardCheck sampleImage s action &&
        decide (∀ t ∈ s.executing, action.spares (s.stackOf sampleImage t).base))
      (fun s => decide (s.executing = some 448 ∧ s.cpu.stackPtr 96 = 352))
      (fun s action checked => by
        rw [Bool.and_eq_true, decide_eq_true_eq] at checked
        exact ⟨boardAllowed_of_check s action checked.1, checked.2⟩)
      (interruptedTask ++ [.pendSv]) bootedBoard boardBooted_bootedBoard (by decide +kernel)
  obtain ⟨executes, saved⟩ := of_decide_eq_true found
  exact ⟨s, reached, executes, saved, canaries_stay reached⟩

/-- Runs in which a task stays registered and nobody writes to the lowest word of its
stack. -/
inductive GuardUntouched (image : Image) (t : Addr) : Board → Board → Prop where
  | start {s : Board} : GuardUntouched image t s s
  | next {first s after : Board} {action : BoardAction} (before : GuardUntouched image t first s)
      (allowed : BoardAllowed image s action) (taken : boardStep image s action = some after)
      (spares : action.spares (s.stackOf image t).base)
      (listed : t ∈ after.kernel.taskRegistry) : GuardUntouched image t first after

theorem GuardUntouched.kept {first : Board} (run : GuardUntouched image t first s)
    (reached : BoardReachable image first) (listed : t ∈ first.kernel.taskRegistry)
    (running : s.overflow = none) :
    BoardReachable image s ∧ t ∈ s.kernel.taskRegistry ∧
      s.guardOf image t = first.guardOf image t := by
  induction run with
  | start => exact ⟨reached, listed, rfl⟩
  | next before allowed taken spares still ih =>
      obtain ⟨was, advanced⟩ := boardStep_returns taken
      obtain ⟨earlier, member, same⟩ := ih was
      have holds := BoardReachable.coherent earlier was
      exact ⟨earlier.next allowed taken, still,
        (holds.guard_kept allowed advanced running member spares).2.trans same⟩

/-- A canary that was overwritten stops the system at the next tick, whoever has run in
between, and nothing runs after that. -/
theorem broken_canary_stops_at_next_tick {first : Board} (reached : BoardReachable image first)
    (listed : t ∈ first.kernel.taskRegistry) (broken : first.guardOf image t ≠ stackCanary)
    (meanwhile : GuardUntouched image t first s) (running : s.overflow = none) :
    ∃ after, boardStep image s .sysTick = some after ∧ after.overflow ≠ none ∧
      ∀ action, boardStep image after action = none := by
  obtain ⟨arrived, member, same⟩ := meanwhile.kept reached listed running
  obtain ⟨after, taken, reports⟩ := (BoardReachable.coherent arrived running).tick running
  have found : s.firstBroken image ≠ none := by
    unfold Board.firstBroken
    rw [ne_eq, Option.map_eq_none_iff, List.find?_eq_none]
    intro none
    rw [← same] at broken
    exact none t member (decide_eq_true broken)
  rw [← reports] at found
  obtain ⟨report, isReport⟩ := Option.ne_none_iff_exists'.mp found
  refine ⟨after, taken, found, fun action => ?_⟩
  unfold boardStep
  rw [isReport]

theorem stops_after_a_switch :
    ∃ first s after : Board, first.executing = some 448 ∧ s.executing = some 96 ∧
      boardStep sampleImage s .sysTick = some after ∧ after.overflow ≠ none ∧
      ∀ action, boardStep sampleImage after action = none := by
  obtain ⟨first, reached, found⟩ :=
    @exists_reachable_of_run Board BoardAction (BoardBooted sampleImage) (boardStep sampleImage)
      (BoardAllowed sampleImage) (boardCheck sampleImage)
      (fun s => decide (s.executing = some 448 ∧ 96 ∈ s.kernel.taskRegistry ∧
          s.guardOf sampleImage 96 ≠ stackCanary ∧ s.cpu.onPsp = true) &&
        (boardStep sampleImage s .pendSv).any fun later : Board =>
          decide (later.executing = some 96 ∧ 96 ∈ later.kernel.taskRegistry ∧
            later.overflow.isNone = true))
      boardAllowed_of_check overflowingTask bootedBoard boardBooted_bootedBoard
      (by decide +kernel)
  simp only [Bool.and_eq_true, decide_eq_true_eq, Option.any_eq_true] at found
  obtain ⟨⟨executes, listed, broken, onPsp⟩, s, taken, again, still, running⟩ := found
  have meanwhile : GuardUntouched sampleImage 96 first s :=
    @GuardUntouched.next sampleImage 96 first first s .pendSv .start onPsp taken trivial still
  obtain ⟨after, stopped⟩ := broken_canary_stops_at_next_tick reached listed broken meanwhile
    (Option.isNone_iff_eq_none.mp running)
  exact ⟨first, s, after, executes, again, stopped⟩

end Guards

end MicrokernelRtos
