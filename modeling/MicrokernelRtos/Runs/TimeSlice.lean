/-
Rounds of a SysTick and the selection it asks for.

`scheduler_time_slice_tick` asks for a reschedule only at the end of a slice, and
`SysTick_Handler` asks for one behind it in any case.  A selection puts the task to
the end of its ring, so the next one takes the first task in front of it.  A task
therefore runs on only while it is alone in its ring, whatever the slice is.
-/

import MicrokernelRtos.Runs.Atomic

namespace MicrokernelRtos

open Linked Transition

/-- A SysTick and, if PendSV is pending after it, the selection. -/
def tickRound (kernel : Kernel) : Option Kernel :=
  (sysTickHandler kernel).bind fun ticked =>
    if ticked.pendSv then
      (schedulerGetNext { ticked with pendSv := false }).map Prod.snd
    else some ticked

def afterRounds : Nat → Kernel → Option Kernel
  | 0, kernel => some kernel
  | rounds + 1, kernel => (afterRounds rounds kernel).bind tickRound

/-- A task of a more urgent bucket is READY or RUNNING. -/
def Outranked (kernel : Kernel) (t : Addr) : Prop :=
  ∃ u ∈ kernel.taskRegistry, kernel.prioBucket u < kernel.prioBucket t ∧ kernel.state u ≠ .blocked

/-- Before the slice is over no other task of its bucket runs in the place of the task
that was selected, unless a task of a more urgent bucket became READY. -/
def SliceHonoured (selected : Kernel) (t : Addr) : Prop :=
  ∀ rounds, rounds < selected.config.timeSliceTicks →
    (∀ earlier, earlier ≤ rounds → ∀ later, afterRounds earlier selected = some later →
      ¬ Outranked later t) →
    ∃ later, afterRounds rounds selected = some later ∧
      ∀ u, later.currentTcb = some u → later.prioBucket u = later.prioBucket t → u = t

/-- The task is not BLOCKED, or a timeout ends its block within so many ticks. -/
def AwakeBy (kernel : Kernel) (ticks : Nat) (u : Addr) : Prop :=
  kernel.state u ≠ .blocked ∨
    ∃ tick, 1 ≤ tick ∧ tick ≤ ticks ∧ Expires kernel ((kernel.tickCount + tick) % uint32Size) u

/-- The task has its bucket for itself until the last but one tick of its slice, or a
task of a more urgent bucket is awake one tick later. -/
def AloneInSlice (kernel : Kernel) (t : Addr) : Prop :=
  ∀ ticks, ticks + 1 < kernel.config.timeSliceTicks →
    (∀ u ∈ kernel.taskRegistry, kernel.prioBucket u < kernel.prioBucket t →
      ¬ AwakeBy kernel (ticks + 1) u) →
    ∀ u ∈ kernel.taskRegistry, u ≠ t → kernel.prioBucket u = kernel.prioBucket t →
      ¬ AwakeBy kernel ticks u

variable {kernel later next start : Kernel} {rings : Bucket → List Addr}
variable {waits : WaitId → List Addr} {window : Addr → Option WaitId} {t u : Addr}
variable {rounds ticks : Nat}

/-! ### One round -/

structure RoundPassed (before after : Kernel) : Prop where
  registry : after.taskRegistry = before.taskRegistry
  bucket : after.prioBucket = before.prioBucket
  config : after.config = before.config
  tick : after.tickCount = (before.tickCount + 1) % uint32Size
  blocked : ∀ u ∈ before.taskRegistry, after.state u = .blocked ↔
    before.state u = .blocked ∧ ¬ Expires before after.tickCount u
  expires : ∀ u ∈ before.taskRegistry, ∀ now, Expires after now u ↔
    Expires before now u ∧ ¬ Expires before after.tickCount u

theorem sysTickHandler_passed (returned : sysTickHandler kernel = some later) :
    RoundPassed kernel later := by
  obtain ⟨woken, counter, wake, rfl⟩ := sysTickHandler_cases returned
  have wakes := wakeLoop_wakes wake
  have tick : woken.tickCount = (kernel.tickCount + 1) % uint32Size := by
    rw [wakes.fields]
    rfl
  have wokenIff : ∀ u ∈ kernel.taskRegistry, (u ∈ (rtosTickIncrement kernel).taskRegistry ∧
      Expires (rtosTickIncrement kernel) (rtosTickIncrement kernel).tickCount u) ↔
        Expires kernel woken.tickCount u := by
    intro u live
    rw [tick]
    exact and_iff_right live
  refine ⟨?_, ?_, ?_, tick, ?_, ?_⟩
  · rw [wakes.fields]
    rfl
  · rw [wakes.fields]
    rfl
  · rw [wakes.fields]
    rfl
  · intro u live
    rw [← wokenIff u live]
    by_cases isWoken : u ∈ (rtosTickIncrement kernel).taskRegistry ∧
        Expires (rtosTickIncrement kernel) (rtosTickIncrement kernel).tickCount u
    · simp [wakes.ready u isWoken, isWoken]
    · rw [show woken.state u = kernel.state u from wakes.state u isWoken]
      exact (and_iff_left isWoken).symm
  · intro u live now
    rw [← wokenIff u live]
    exact wakes.isDue_iff u

theorem RoundPassed.select {ticked : Kernel} {sel : Addr} (passed : RoundPassed kernel ticked)
    (awake : ticked.state sel ≠ .blocked)
    (core : later.toCore = (dispatch (preemptCurrent ticked) sel).toCore) :
    RoundPassed kernel later := by
  obtain ⟨state, counter, fields⟩ := select_core ticked sel
  have stateIs : ∀ u, later.state u = .blocked ↔ ticked.state u = .blocked := by
    rw [core]
    exact select_blocked_iff awake
  rw [fields] at core
  have tick : later.tickCount = ticked.tickCount := by rw [core]
  have idle : later.idleTcb = ticked.idleTcb := by rw [core]
  have wakeTime : later.wakeTime = ticked.wakeTime := by rw [core]
  have reason : later.blockReason = ticked.blockReason := by rw [core]
  refine ⟨?_, ?_, ?_, tick.trans passed.tick, ?_, ?_⟩
  · rw [core]
    exact passed.registry
  · rw [core]
    exact passed.bucket
  · rw [core]
    exact passed.config
  · intro u live
    rw [stateIs, tick]
    exact passed.blocked u live
  · intro u live now
    rw [tick, ← passed.expires u live now]
    simp only [Expires, isDue, idle, wakeTime, reason, stateIs]

/-- A round appends to the rings the tasks it wakes and then turns the first ring that is
not empty. -/
theorem tickRound_spec (ringed : RingCoherent kernel rings)
    (waiting : WaitCoherent kernel waits window) :
    ∃ later sel rest grown, tickRound kernel = some later ∧ RoundPassed kernel later ∧
      later.currentTcb = some sel ∧ (∀ bucket, rings bucket <+: grown bucket) ∧
      grown (kernel.prioBucket sel) = sel :: rest ∧
      (∀ lower, lower < kernel.prioBucket sel → grown lower = []) ∧
      RingCoherent later (Function.update grown (kernel.prioBucket sel) (rest ++ [sel])) ∧
      ∃ changed, WaitCoherent later changed window := by
  obtain ⟨ticked, grown, tick, held, added⟩ := sysTickHandler_rings ringed waiting
  have tickedWaits := sysTickHandler_waits waiting tick
  have passed := sysTickHandler_passed tick
  have pending : ticked.pendSv = true := by
    obtain ⟨woken, counter, _, rfl⟩ := sysTickHandler_cases tick
    rfl
  have cleared : RingCoherent { ticked with pendSv := false } grown :=
    held.congr rfl rfl rfl rfl rfl rfl rfl rfl rfl
  obtain ⟨sel, rest, later, returned, live, awake, split, lower, turned⟩ :=
    schedulerGetNext_rings cleared
  have frame := schedulerGetNext_onlyRings returned
  have bucket : ticked.prioBucket sel = kernel.prioBucket sel := by rw [passed.bucket]
  have isNext : tickRound kernel = some later := by
    unfold tickRound
    rw [tick, Option.bind_some, if_pos pending, returned, Option.map_some]
  refine ⟨later, sel, rest, grown, isNext, ?_, ?_, added, ?_, ?_, ?_, ?_⟩
  · refine @RoundPassed.select kernel later { ticked with pendSv := false } sel ?_ awake frame.core
    exact ⟨passed.registry, passed.bucket, passed.config, passed.tick, passed.blocked,
      passed.expires⟩
  · rw [frame.core]
    rfl
  · rw [← bucket]
    exact split
  · rw [← bucket]
    exact lower
  · rw [← bucket]
    exact turned
  · have clearedWaits : WaitCoherent { ticked with pendSv := false } _ window :=
      tickedWaits.congr rfl rfl rfl rfl rfl rfl rfl
    exact ⟨_, frame.waitCoherent (select_waits clearedWaits live awake)⟩

/-! ### The task that was selected -/

/-- The task has just been selected: it is current and the last of its ring. -/
structure HasTurn (kernel : Kernel) (t : Addr) (window : Addr → Option WaitId) : Prop where
  current : kernel.currentTcb = some t
  placed : ∃ rings front, RingCoherent kernel rings ∧ rings (kernel.prioBucket t) = front ++ [t]
  waits : ∃ waits, WaitCoherent kernel waits window

theorem HasTurn.of_selected (coherent : Coherent kernel window)
    (returned : schedulerGetNext kernel = some (t, later)) : HasTurn later t window := by
  obtain ⟨⟨rings, ringed⟩, waits, waiting⟩ := coherent
  obtain ⟨sel, rest, result, isNext, live, awake, _, _, turned⟩ := schedulerGetNext_rings ringed
  rw [returned] at isNext
  cases isNext
  have frame := schedulerGetNext_onlyRings returned
  obtain ⟨state, counter, fields⟩ := select_core kernel t
  have bucket : later.prioBucket t = kernel.prioBucket t := by rw [frame.core, fields]
  refine ⟨?_, ⟨_, rest, turned, ?_⟩, _, frame.waitCoherent (select_waits waiting live awake)⟩
  · rw [frame.core]
    rfl
  · rw [bucket, Function.update_self]

theorem tickRound_first {head : Addr} {others : List Addr} (ringed : RingCoherent kernel rings)
    (waiting : WaitCoherent kernel waits window)
    (split : rings (kernel.prioBucket t) = head :: others) :
    ∃ later, tickRound kernel = some later ∧ RoundPassed kernel later ∧
      (¬ Outranked later t → later.currentTcb = some head ∧
        (∃ changed more, RingCoherent later changed ∧
          changed (kernel.prioBucket t) = others ++ more ++ [head]) ∧
        ∃ changed, WaitCoherent later changed window) := by
  obtain ⟨later, sel, rest, grown, returned, passed, isCurrent, added, first, lower, turned,
    laterWaits⟩ := tickRound_spec ringed waiting
  refine ⟨later, returned, passed, fun notOutranked => ?_⟩
  obtain ⟨more, isGrown⟩ := added (kernel.prioBucket t)
  rw [split] at isGrown
  have notBehind : ¬ kernel.prioBucket t < kernel.prioBucket sel := by
    intro behind
    rw [lower _ behind] at isGrown
    cases isGrown
  have selAwake := (turned.shape.member (kernel.prioBucket sel) sel).mp (by simp)
  have notAhead : ¬ kernel.prioBucket sel < kernel.prioBucket t := by
    intro ahead
    refine notOutranked ⟨sel, selAwake.1, ?_, selAwake.2.2⟩
    rw [passed.bucket]
    exact ahead
  have sameBucket : kernel.prioBucket sel = kernel.prioBucket t :=
    Fin.le_antisymm (Fin.not_lt.mp notBehind) (Fin.not_lt.mp notAhead)
  rw [sameBucket] at first turned
  rw [first, List.cons_append] at isGrown
  obtain ⟨rfl, rfl⟩ := List.cons.inj isGrown
  refine ⟨isCurrent, ⟨_, more, turned, ?_⟩, laterWaits⟩
  rw [Function.update_self]

theorem HasTurn.round (turn : HasTurn kernel t window) :
    ∃ later, tickRound kernel = some later ∧ RoundPassed kernel later ∧
      (¬ Outranked later t →
        ((∀ u ∈ kernel.taskRegistry, u ≠ t → kernel.prioBucket u = kernel.prioBucket t →
            kernel.state u = .blocked) → HasTurn later t window) ∧
        ((∃ u ∈ kernel.taskRegistry, u ≠ t ∧ kernel.prioBucket u = kernel.prioBucket t ∧
            kernel.state u ≠ .blocked) →
          ∃ u, later.currentTcb = some u ∧ u ≠ t ∧ later.prioBucket u = later.prioBucket t)) := by
  obtain ⟨current, ⟨rings, front, ringed, split⟩, waits, waiting⟩ := turn
  cases front with
  | nil =>
      obtain ⟨later, returned, passed, selects⟩ := tickRound_first ringed waiting split
      refine ⟨later, returned, passed, fun notOutranked => ⟨fun _ => ?_, ?_⟩⟩
      · obtain ⟨isCurrent, ⟨changed, more, turned, placed⟩, laterWaits⟩ := selects notOutranked
        refine ⟨isCurrent, ⟨changed, more, turned, ?_⟩, laterWaits⟩
        rw [passed.bucket, placed, List.nil_append]
      · rintro ⟨peer, live, different, bucket, awake⟩
        have inRing := (ringed.shape.member _ peer).mpr ⟨live, bucket, awake⟩
        rw [split] at inRing
        exact absurd (List.mem_singleton.mp inRing) different
  | cons peer others =>
      obtain ⟨later, returned, passed, selects⟩ := tickRound_first ringed waiting split
      have inRing : peer ∈ rings (kernel.prioBucket t) := by simp [split]
      obtain ⟨live, bucket, awake⟩ := (ringed.shape.member _ peer).mp inRing
      have distinct := (ringed.lists.family.ring (kernel.prioBucket t)).distinct
      have different : peer ≠ t := by
        rintro rfl
        rw [split] at distinct
        simp at distinct
      refine ⟨later, returned, passed, fun notOutranked => ⟨fun alone => ?_, fun _ => ?_⟩⟩
      · exact absurd (alone peer live different bucket) awake
      · refine ⟨peer, (selects notOutranked).1, different, ?_⟩
        rw [passed.bucket]
        exact bucket

/-! ### Several rounds -/

structure RoundsPassed (start later : Kernel) (rounds : Nat) : Prop where
  registry : later.taskRegistry = start.taskRegistry
  bucket : later.prioBucket = start.prioBucket
  tick : later.tickCount % uint32Size = (start.tickCount + rounds) % uint32Size
  blocked : ∀ u ∈ start.taskRegistry, later.state u = .blocked ↔ ¬ AwakeBy start rounds u
  expires : ∀ u ∈ start.taskRegistry, ∀ now, Expires later now u ↔
    Expires start now u ∧ ¬ AwakeBy start rounds u

theorem awakeBy_zero : AwakeBy kernel 0 u ↔ kernel.state u ≠ .blocked := by
  refine or_iff_left ?_
  rintro ⟨tick, early, late, _⟩
  omega

theorem awakeBy_succ : AwakeBy kernel (ticks + 1) u ↔
    AwakeBy kernel ticks u ∨ Expires kernel ((kernel.tickCount + (ticks + 1)) % uint32Size) u := by
  constructor
  · rintro (awake | ⟨tick, early, late, expires⟩)
    · exact Or.inl (Or.inl awake)
    · by_cases last : tick = ticks + 1
      · subst tick
        exact Or.inr expires
      · exact Or.inl (Or.inr ⟨tick, early, by omega, expires⟩)
  · rintro ((awake | ⟨tick, early, late, expires⟩) | expires)
    · exact Or.inl awake
    · exact Or.inr ⟨tick, early, by omega, expires⟩
    · exact Or.inr ⟨ticks + 1, by omega, le_rfl, expires⟩

theorem AwakeBy.mono (awake : AwakeBy kernel ticks u) (most : ticks ≤ rounds) :
    AwakeBy kernel rounds u :=
  awake.imp_right fun ⟨tick, early, late, expires⟩ => ⟨tick, early, late.trans most, expires⟩

theorem RoundsPassed.refl (kernel : Kernel) : RoundsPassed kernel kernel 0 := by
  refine ⟨rfl, rfl, rfl, ?_, ?_⟩
  · intro u _
    rw [awakeBy_zero, not_not]
  · intro u _ now
    rw [awakeBy_zero, not_not]
    exact (and_iff_left_of_imp Expires.blocked).symm

theorem RoundsPassed.round (passed : RoundsPassed start kernel rounds)
    (step : RoundPassed kernel later) : RoundsPassed start later (rounds + 1) := by
  have tick : later.tickCount = (start.tickCount + (rounds + 1)) % uint32Size := by
    rw [step.tick, Nat.add_mod, passed.tick, ← Nat.add_mod, Nat.add_assoc]
  have registry := passed.registry
  refine ⟨step.registry.trans registry, step.bucket.trans passed.bucket, ?_, ?_, ?_⟩
  · rw [tick, Nat.mod_mod]
  · intro u live
    rw [step.blocked u (registry ▸ live), passed.blocked u live, passed.expires u live, tick,
      awakeBy_succ]
    tauto
  · intro u live now
    rw [step.expires u (registry ▸ live), passed.expires u live, passed.expires u live, tick,
      awakeBy_succ]
    tauto

theorem RoundsPassed.outranked_iff (passed : RoundsPassed start later rounds) :
    Outranked later t ↔ ∃ u ∈ start.taskRegistry, start.prioBucket u < start.prioBucket t ∧
      AwakeBy start rounds u := by
  unfold Outranked
  rw [passed.registry, passed.bucket]
  refine exists_congr fun u => and_congr_right fun live => and_congr_right fun _ => ?_
  rw [ne_eq, passed.blocked u live, not_not]

theorem HasTurn.coherent (turn : HasTurn kernel t window) : Coherent kernel window := by
  obtain ⟨_, ⟨rings, front, ringed, _⟩, waits⟩ := turn
  exact ⟨⟨rings, ringed⟩, waits⟩

theorem Coherent.afterRounds (coherent : Coherent start window) (rounds : Nat) :
    ∃ later, afterRounds rounds start = some later ∧ RoundsPassed start later rounds ∧
      Coherent later window := by
  induction rounds with
  | zero => exact ⟨start, rfl, RoundsPassed.refl start, coherent⟩
  | succ rounds ih =>
      obtain ⟨kernel, before, passed, ⟨rings, ringed⟩, waits, waiting⟩ := ih
      obtain ⟨later, sel, rest, grown, returned, step, _, _, _, _, turned, changed⟩ :=
        tickRound_spec ringed waiting
      refine ⟨later, ?_, passed.round step, ⟨_, turned⟩, changed⟩
      rw [MicrokernelRtos.afterRounds, before, Option.bind_some, returned]

theorem HasTurn.stays (turn : HasTurn start t window)
    (free : ∀ u ∈ start.taskRegistry, start.prioBucket u < start.prioBucket t →
      ¬ AwakeBy start rounds u)
    (alone : ∀ ticks, ticks < rounds → ∀ u ∈ start.taskRegistry, u ≠ t →
      start.prioBucket u = start.prioBucket t → ¬ AwakeBy start ticks u) :
    ∃ later, afterRounds rounds start = some later ∧ RoundsPassed start later rounds ∧
      HasTurn later t window := by
  induction rounds with
  | zero => exact ⟨start, rfl, RoundsPassed.refl start, turn⟩
  | succ rounds ih =>
      obtain ⟨kernel, before, passed, held⟩ := ih
        (fun u live urgent awake => free u live urgent (awake.mono (by omega)))
        (fun ticks early => alone ticks (by omega))
      obtain ⟨later, returned, step, outcome⟩ := held.round
      have onward := passed.round step
      refine ⟨later, ?_, onward, (outcome ?_).1 ?_⟩
      · rw [afterRounds, before, Option.bind_some, returned]
      · rw [onward.outranked_iff]
        rintro ⟨u, live, urgent, awake⟩
        exact free u live urgent awake
      · intro u live different bucket
        rw [passed.registry] at live
        rw [passed.bucket] at bucket
        exact (passed.blocked u live).mpr (alone rounds (by omega) u live different bucket)

/-- Without a more urgent task, the first tick at which the task shares its bucket is
followed by a round that selects another task of the bucket. -/
theorem HasTurn.replaced (turn : HasTurn start t window)
    (free : ∀ u ∈ start.taskRegistry, start.prioBucket u < start.prioBucket t →
      ¬ AwakeBy start (ticks + 1) u)
    (alone : ∀ tick, tick < ticks → ∀ u ∈ start.taskRegistry, u ≠ t →
      start.prioBucket u = start.prioBucket t → ¬ AwakeBy start tick u)
    (live : u ∈ start.taskRegistry) (different : u ≠ t)
    (bucket : start.prioBucket u = start.prioBucket t) (awake : AwakeBy start ticks u) :
    ∃ later peer, afterRounds (ticks + 1) start = some later ∧ later.currentTcb = some peer ∧
      peer ≠ t ∧ later.prioBucket peer = later.prioBucket t := by
  obtain ⟨middle, before, passed, held⟩ := @HasTurn.stays start window t ticks turn
    (fun u live urgent awake => free u live urgent (awake.mono (by omega))) alone
  obtain ⟨later, returned, step, outcome⟩ := held.round
  have notOutranked : ¬ Outranked later t := by
    rw [(passed.round step).outranked_iff]
    rintro ⟨urgent, member, ahead, isAwake⟩
    exact free urgent member ahead isAwake
  obtain ⟨peer, current, other, same⟩ := (outcome notOutranked).2 ⟨u, passed.registry ▸ live,
    different, by rw [passed.bucket]; exact bucket, fun blocked =>
      (passed.blocked u live).mp blocked awake⟩
  refine ⟨later, peer, ?_, current, other, same⟩
  rw [afterRounds, before, Option.bind_some, returned]

/-- In every coherent kernel a selected task keeps its slice exactly if it has its bucket
for itself. -/
theorem sliceHonoured_iff_alone {selected : Kernel} (coherent : Coherent kernel window)
    (returned : schedulerGetNext kernel = some (t, selected)) :
    SliceHonoured selected t ↔ AloneInSlice selected t := by
  have turn := HasTurn.of_selected coherent returned
  constructor
  · intro honoured ticks
    -- by induction the task has been alone at every earlier tick
    induction ticks using Nat.strong_induction_on with
    | _ ticks ih =>
        intro early free u live different bucket awake
        have alone : ∀ tick, tick < ticks → ∀ u ∈ selected.taskRegistry, u ≠ t →
            selected.prioBucket u = selected.prioBucket t → ¬ AwakeBy selected tick u :=
          fun tick less => ih tick less (by omega) fun u live urgent awake =>
            free u live urgent (awake.mono (by omega))
        obtain ⟨later, peer, rounds, current, other, same⟩ :=
          turn.replaced free alone live different bucket awake
        obtain ⟨final, isFinal, kept⟩ := honoured (ticks + 1) early (by
          intro earlier most kernel reached
          obtain ⟨known, isKnown, passed, _⟩ := turn.coherent.afterRounds earlier
          rw [isKnown] at reached
          cases reached
          rw [passed.outranked_iff]
          rintro ⟨urgent, member, ahead, isAwake⟩
          exact free urgent member ahead (isAwake.mono most))
        rw [rounds] at isFinal
        cases isFinal
        exact other (kept peer current same)
  · intro alone rounds early quiet
    obtain ⟨known, isKnown, passed, _⟩ := turn.coherent.afterRounds rounds
    have free : ∀ u ∈ selected.taskRegistry, selected.prioBucket u < selected.prioBucket t →
        ¬ AwakeBy selected rounds u := by
      intro u live urgent awake
      refine quiet rounds le_rfl known isKnown ?_
      rw [passed.outranked_iff]
      exact ⟨u, live, urgent, awake⟩
    obtain ⟨later, isLater, _, held⟩ := turn.stays free fun ticks less =>
      alone ticks (by omega) fun u live urgent awake =>
        free u live urgent (awake.mono (by omega))
    refine ⟨later, isLater, fun u current _ => ?_⟩
    rw [held.current] at current
    cases current
    rfl

def slicedSystem (ticks : Nat) : System where
  kernel :=
    match taskInit { resetKernel with config := { timeSliceTicks := ticks } } (some 0) with
    | some (_, kernel) => kernel
    | none => resetKernel
  live := []

theorem started_slicedSystem (ticks : Nat) : Started (slicedSystem ticks) := by
  refine ⟨⟨_, 0, initialised_resetKernel.withConfig { timeSliceTicks := ticks }, rfl, ?_, rfl⟩, rfl⟩
  exact Nat.succ_pos 32767

theorem sliceHonoured_while_delayed :
    ∃ kernel selected, Coherent kernel noWindow ∧ schedulerGetNext kernel = some (1, selected) ∧
      selected.config.timeSliceTicks = 3 ∧ selected.prioBucket 1 = selected.prioBucket 2 ∧
      SliceHonoured selected 1 := by
  obtain ⟨s, reached, found⟩ :=
    @exists_reachable_of_run System Action Started step UnlockKeepsBucket
      (fun s a => decide (UnlockKeepsBucket s a))
      (fun s => (schedulerGetNext s.kernel).any fun (next : Addr × Kernel) =>
        decide (next.1 = 1 ∧ next.2.config.timeSliceTicks = 3 ∧
          next.2.prioBucket 1 = next.2.prioBucket 2 ∧
          ∀ u ∈ next.2.taskRegistry, u ≠ 1 → next.2.prioBucket u = next.2.prioBucket 1 →
            next.2.state u = .blocked ∧
              ¬ Expires next.2 ((next.2.tickCount + 1) % uint32Size) u))
      (fun _ _ checked => of_decide_eq_true checked)
      [.create (some 0) 10 256 (some 1) (some 0), .create (some 0) 11 256 (some 2) (some 0),
        .getNext, .getNext, .call (.delay 5)]
      (slicedSystem 3) (started_slicedSystem 3) (by decide +kernel)
  obtain ⟨⟨sel, selected⟩, returned, facts⟩ := (Option.any_eq_true _ _).mp found
  obtain ⟨isSel, slice, same, asleep⟩ := of_decide_eq_true facts
  subst isSel
  have coherent : SystemCoherent s :=
    Reachable.systemCoherent (fun _ _ permitted => permitted) reached
  refine ⟨s.kernel, selected, coherent.coherent, returned, slice, same,
    (sliceHonoured_iff_alone coherent.coherent returned).mpr ?_⟩
  intro ticks early _ u live different bucket awake
  obtain ⟨blocked, stays⟩ := asleep u live different bucket
  rw [slice] at early
  have soon : AwakeBy selected 1 u := awake.mono (by omega)
  rw [awakeBy_succ, awakeBy_zero] at soon
  exact soon.elim (fun isAwake => isAwake blocked) stays

/-- Slices of two ticks and two tasks of one bucket: the first tick replaces the task. -/
theorem not_sliceHonoured :
    ¬ ∀ system t selected, Reachable Started step UnlockKeepsBucket system →
      schedulerGetNext system.kernel = some (t, selected) → some t ≠ system.kernel.idleTcb →
      SliceHonoured selected t := by
  intro always
  obtain ⟨s, reached, found⟩ :=
    @exists_reachable_of_run System Action Started step UnlockKeepsBucket
      (fun s a => decide (UnlockKeepsBucket s a))
      (fun s => (schedulerGetNext s.kernel).any fun (next : Addr × Kernel) =>
        decide (some next.1 ≠ s.kernel.idleTcb ∧ next.2.config.timeSliceTicks = 2 ∧
          next.1 ≠ 2 ∧ next.2.prioBucket next.1 = 0) &&
        (tickRound next.2).any fun (later : Kernel) => decide (later.currentTcb = some 2 ∧
          later.prioBucket next.1 = 0 ∧ later.prioBucket 2 = 0))
      (fun _ _ checked => of_decide_eq_true checked)
      [.create (some 0) 10 256 (some 1) (some 0), .create (some 0) 11 256 (some 2) (some 0)]
      (slicedSystem 2) (started_slicedSystem 2) (by decide +kernel)
  obtain ⟨⟨t, selected⟩, returned, facts⟩ := (Option.any_eq_true _ _).mp found
  rw [Bool.and_eq_true] at facts
  obtain ⟨notIdle, slice, different, firstRing⟩ := of_decide_eq_true facts.1
  have early : 1 < selected.config.timeSliceTicks := by
    rw [show selected.config.timeSliceTicks = 2 from slice]
    decide
  obtain ⟨later, isLater, changes⟩ := (Option.any_eq_true _ _).mp facts.2
  obtain ⟨current, laterRing, peerRing⟩ := of_decide_eq_true changes
  have honoured := always s t selected reached returned notIdle
  obtain ⟨final, isFinal, kept⟩ := honoured 1 early (by
    rintro earlier most kernel isKernel ⟨u, _, urgent, _⟩
    have zero : kernel.prioBucket t = 0 := by
      cases earlier with
      | zero =>
          cases isKernel
          exact firstRing
      | succ earlier =>
          have one : earlier = 0 := by omega
          subst one
          rw [show afterRounds 1 selected = tickRound selected from rfl, isLater] at isKernel
          cases isKernel
          exact laterRing
    rw [zero] at urgent
    exact absurd urgent (Fin.not_lt_zero _))
  rw [show afterRounds 1 selected = tickRound selected from rfl, isLater] at isFinal
  cases isFinal
  exact different (kept 2 current (peerRing.trans laterRing.symm)).symm

end MicrokernelRtos
