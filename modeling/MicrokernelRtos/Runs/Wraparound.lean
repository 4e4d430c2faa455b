/-
One-shot timers across the wrap of the tick counter.

The runs count their ticks without a bound beside the counter of 32 bits, and may
begin at any tick.  A start computes its expiry in 32 bits, and the list is sorted
and drained by the plain order of the expiries.  So a timer is called at the first
tick that is not below its expiry, whatever other timers there are.  For an expiry
that has wrapped this is the next tick, and the right one only if the counter wraps
there too.
-/

import MicrokernelRtos.Runs.Draining
import MicrokernelRtos.Runs.OnTime

namespace MicrokernelRtos

open Linked Transition

/-! ### The runs -/

/-- A start of a one-shot timer, with the ticks at which it has been called since. -/
structure OneShot where
  armedAt : Nat
  delay : Nat
  firings : List Nat
  deriving DecidableEq

structure OneShotRun where
  timers : Timers
  now : Nat
  started : TimerAddr → Option OneShot

inductive OneShotAction where
  | start (t : TimerAddr) (delayTicks cb arg : Nat)
  | tick

def drainLimit : Nat := uint32Size + 1

def OneShot.called (start : OneShot) (times tick : Nat) : OneShot :=
  { start with firings := start.firings ++ List.replicate times tick }

def oneShotStep (s : OneShotRun) : OneShotAction → Option OneShotRun
  | .start t delayTicks cb arg =>
      (swTimerStartOnce s.timers (some t) delayTicks (some cb) arg).map fun returned =>
        { s with
          timers := returned.2
          started := if returned.1 = .ok then
              Function.update s.started t
                (some { armedAt := s.now, delay := delayTicks, firings := [] })
            else s.started }
  | .tick =>
      (swTimerTickProcess drainLimit
          { s.timers with tickCount := (s.timers.tickCount + 1) % uint32Size }).map fun drained =>
        { timers := drained.2
          now := s.now + 1
          started := fun t =>
            (s.started t).map fun start => start.called (drained.1.count t) (s.now + 1) }

/-- Timers that are not in the list are started, with a delay from 1 to 2^31 - 1. -/
def OneShotAllowed (s : OneShotRun) : OneShotAction → Prop
  | .start t delayTicks _ _ => ¬ Reaches s.timers.next s.timers.timerList t ∧
      1 ≤ delayTicks ∧ delayTicks < 2147483648
  | .tick => True

def OneShotBoot (s : OneShotRun) : Prop :=
  s.timers.timerList = none ∧ s.timers.tickCount = s.now % uint32Size ∧ s.started = fun _ => none

/-! ### When the code calls a timer -/

/-- The expiry does not wrap, or the counter wraps at the next tick. -/
def Timely (armedAt delay : Nat) : Prop :=
  armedAt % uint32Size + delay < uint32Size ∨ armedAt % uint32Size = uint32Size - 1

instance (armedAt delay : Nat) : Decidable (Timely armedAt delay) :=
  inferInstanceAs (Decidable (_ ∨ _))

def firesAt (armedAt delay : Nat) : Nat :=
  if Timely armedAt delay then armedAt + delay else armedAt + 1

theorem lt_firesAt {armedAt delay : Nat} (positive : 1 ≤ delay) :
    armedAt < firesAt armedAt delay := by
  unfold firesAt
  split
  · omega
  · omega

/-- A timer that has not been called is due at the next tick, by the comparison of
the code, exactly if that is the tick at which it is called. -/
theorem expired_iff {armedAt delay now : Nat} (positive : 1 ≤ delay) (short : delay < 2147483648)
    (armed : armedAt ≤ now) (ahead : now < firesAt armedAt delay) :
    (armedAt + delay) % uint32Size ≤ (now + 1) % uint32Size ↔
      firesAt armedAt delay ≤ now + 1 := by
  unfold firesAt at ahead ⊢
  by_cases timely : Timely armedAt delay
  · rw [if_pos timely] at ahead ⊢
    unfold Timely uint32Size at timely
    unfold uint32Size
    rcases timely with unwrapped | last
    · omega
    · omega
  · rw [if_neg timely] at ahead ⊢
    unfold Timely uint32Size at timely
    unfold uint32Size
    omega

/-! ### One tick -/

section Drain

variable {timers : Timers} {order : List TimerAddr}

/-- A call of `sw_timer_tick_process` has called the timers of `fired`, and left the
others in the list and as they were. -/
structure Drained (timers : Timers) (order fired left : List TimerAddr) (drained : Timers) :
    Prop where
  split : order = fired ++ left
  formed : drained.WellFormed left
  tickCount : drained.tickCount = timers.tickCount
  early : ∀ u ∈ fired, timers.expiryTick u ≤ timers.tickCount
  late : ∀ u ∈ left, timers.tickCount < timers.expiryTick u
  others : ∀ u, u ∉ fired → SameTimer timers drained u

theorem Drained.mem_fired {fired left : List TimerAddr} {drained : Timers} {u : TimerAddr}
    (drains : Drained timers order fired left drained) (inside : u ∈ fired) : u ∈ order := by
  rw [drains.split]
  exact List.mem_append_left left inside

theorem Drained.mem_left {fired left : List TimerAddr} {drained : Timers} {u : TimerAddr}
    (drains : Drained timers order fired left drained) (inside : u ∈ left) : u ∈ order := by
  rw [drains.split]
  exact List.mem_append_right fired inside

theorem Timers.WellFormed.drained_nil (formed : timers.WellFormed order)
    (late : ∀ u ∈ order, timers.tickCount < timers.expiryTick u) :
    Drained timers order [] order timers :=
  ⟨rfl, formed, rfl, fun _ inside => absurd inside List.not_mem_nil, late,
    fun u _ => SameTimer.refl timers u⟩

theorem Drained.cons {first : TimerAddr} {rest fired left : List TimerAddr}
    {turned drained : Timers} (drains : Drained turned rest fired left drained)
    (due : timers.expiryTick first ≤ timers.tickCount)
    (tickCount : turned.tickCount = timers.tickCount) (outside : first ∉ rest)
    (same : ∀ u, u ≠ first → SameTimer timers turned u) :
    Drained timers (first :: rest) (first :: fired) left drained := by
  have kept : ∀ u ∈ rest, SameTimer timers turned u := by
    intro u inside
    apply same u
    rintro rfl
    exact outside inside
  refine ⟨by rw [drains.split, List.cons_append], drains.formed,
    drains.tickCount.trans tickCount, ?_, ?_, ?_⟩
  · intro u inside
    rcases List.mem_cons.mp inside with isFirst | later
    · rw [isFirst]
      exact due
    · have before := drains.early u later
      rw [(kept u (drains.mem_fired later)).expiryTick, tickCount] at before
      exact before
  · intro u inside
    have behind := drains.late u inside
    rw [(kept u (drains.mem_left inside)).expiryTick, tickCount] at behind
    exact behind
  · intro u notFired
    obtain ⟨notFirst, notLater⟩ := not_or.mp (mt List.mem_cons.mpr notFired)
    exact (same u notFirst).trans (drains.others u notLater)

theorem Timers.WellFormed.drains_oneShots {fuel : Nat} (formed : timers.WellFormed order)
    (oneShot : ∀ t ∈ order, timers.periodic t ≠ true)
    (called : ∀ t ∈ order, (timers.callback t).isSome = true) (enough : order.length < fuel) :
    ∃ fired left drained, swTimerTickProcess fuel timers = some (fired, drained) ∧
      Drained timers order fired left drained := by
  obtain ⟨limit, rfl⟩ : ∃ limit, fuel = limit + 1 := ⟨fuel - 1, by omega⟩
  induction order generalizing timers limit with
  | nil =>
      have empty : timers.timerList = none := formed.path
      refine ⟨[], [], timers, ?_, formed.drained_nil (by simp)⟩
      rw [swTimerTickProcess, headDue, empty]
      rfl
  | cons first rest ih =>
      by_cases due : timers.expiryTick first ≤ timers.tickCount
      · obtain ⟨turned, returned, turn⟩ :=
          formed.turn_oneShot (oneShot first List.mem_cons_self)
        obtain ⟨outside, _⟩ := formed.unlinked
        have kept : ∀ u ∈ rest, SameTimer timers turned u := by
          intro u inside
          apply turn.others u
          rintro rfl
          exact outside inside
        obtain ⟨less, rfl⟩ : ∃ less, limit = less + 1 := by
          rw [List.length_cons] at enough
          exact ⟨limit - 1, by omega⟩
        obtain ⟨fired, left, drained, ends, drains⟩ :=
          ih turn.formed
            (fun u inside => by
              rw [(kept u inside).periodic]
              exact oneShot u (List.mem_cons_of_mem first inside))
            (fun u inside => by
              rw [(kept u inside).callback]
              exact called u (List.mem_cons_of_mem first inside))
            less (by rw [List.length_cons] at enough; omega)
        refine ⟨first :: fired, left, drained, ?_,
          drains.cons due turn.tickCount outside turn.others⟩
        rw [swTimerTickProcess_turn formed due returned, ends, Option.map_some,
          if_pos (called first List.mem_cons_self)]
      · refine ⟨[], first :: rest, timers, formed.nothing_due due _, formed.drained_nil ?_⟩
        intro u inside
        rcases List.mem_cons.mp inside with isFirst | later
        · rw [isFirst]
          exact Nat.lt_of_not_le due
        · exact Nat.lt_of_lt_of_le (Nat.lt_of_not_le due)
            ((List.pairwise_cons.mp formed.sorted).1 u later)

end Drain

/-! ### What holds in every state -/

variable {s after : OneShotRun} {order : List TimerAddr} {t : TimerAddr} {start : OneShot}

structure OneShot.Answered (start : OneShot) (now : Nat) : Prop where
  positive : 1 ≤ start.delay
  short : start.delay < 2147483648
  armed : start.armedAt ≤ now
  firings : start.firings = if firesAt start.armedAt start.delay ≤ now then
    [firesAt start.armedAt start.delay] else []

/-- The list is well formed, holds one-shot timers only, and exactly those that are
still to be called. -/
structure OneShotLaw (s : OneShotRun) (order : List TimerAddr) : Prop where
  formed : s.timers.WellFormed order
  oneShot : ∀ t ∈ order, s.timers.periodic t = false
  callback : ∀ t ∈ order, (s.timers.callback t).isSome = true
  ticks : s.timers.tickCount = s.now % uint32Size
  answered : ∀ t start, s.started t = some start → start.Answered s.now
  listed : ∀ t, t ∈ order ↔ ∃ start, s.started t = some start ∧
    s.now < firesAt start.armedAt start.delay
  expiry : ∀ t ∈ order, ∀ start, s.started t = some start →
    s.timers.expiryTick t = (start.armedAt + start.delay) % uint32Size

theorem OneShotBoot.law (boot : OneShotBoot s) : OneShotLaw s [] := by
  obtain ⟨empty, ticks, unstarted⟩ := boot
  have none : ∀ t start, s.started t ≠ some start := by
    intro t start isStarted
    rw [unstarted] at isStarted
    cases isStarted
  refine ⟨⟨⟨empty, List.Pairwise.nil⟩, by simp, by simp⟩, by simp, by simp, ticks, ?_, ?_, by simp⟩
  · exact fun t start isStarted => absurd isStarted (none t start)
  · intro t
    constructor
    · intro member
      cases member
    · rintro ⟨start, isStarted, _⟩
      exact absurd isStarted (none t start)

theorem start_oneShotLaw {delayTicks cb arg : Nat} (law : OneShotLaw s order)
    (allowed : OneShotAllowed s (.start t delayTicks cb arg)) :
    ∃ after added, oneShotStep s (.start t delayTicks cb arg) = some after ∧
      OneShotLaw after added := by
  obtain ⟨notListed, positive, short⟩ := allowed
  rw [law.formed.path.reaches_iff] at notListed
  have only := armTimer_only s.timers t delayTicks false cb arg
  obtain ⟨next, head, added, inserted, sorted, _, members⟩ :=
    law.formed.toSorted.insert only notListed
  have started : oneShotStep s (.start t delayTicks cb arg) = some
      { s with
        timers := (armTimer s.timers t delayTicks false cb arg).relinked next head t
        started := Function.update s.started t
          (some { armedAt := s.now, delay := delayTicks, firings := [] }) } := by
    simp only [oneShotStep, swTimerStartOnce, swTimerStart]
    rw [if_neg (by omega), inserted]
    rfl
  have apart : ∀ u ∈ order, u ≠ t := by
    rintro u inside rfl
    exact notListed inside
  have periodic : ∀ u ∈ added,
      (armTimer s.timers t delayTicks false cb arg).periodic u = false := by
    intro u inside
    rcases (members u).mp inside with isNew | old
    · rw [isNew]
      exact Function.update_self _ _ _
    · exact (only.fields u (apart u old)).periodic.trans (law.oneShot u old)
  refine ⟨_, added, started, ⟨⟨sorted, ?_, ?_⟩, periodic, ?_, law.ticks, ?_, ?_, ?_⟩⟩
  · intro u inside
    rcases (members u).mp inside with isNew | old
    · rw [isNew]
      exact Function.update_self _ _ _
    · exact (only.fields u (apart u old)).active.trans (law.formed.active u old)
  · intro u inside isPeriodic
    have impossible := (periodic u inside).symm.trans isPeriodic
    cases impossible
  · intro u inside
    rcases (members u).mp inside with isNew | old
    · rw [isNew]
      change (Function.update s.timers.callback t (some cb) t).isSome = true
      rw [Function.update_self]
      rfl
    · change ((armTimer s.timers t delayTicks false cb arg).callback u).isSome = true
      rw [(only.fields u (apart u old)).callback]
      exact law.callback u old
  · intro u record isStarted
    by_cases same : u = t
    · rw [same] at isStarted
      simp only [Function.update_self, Option.some.injEq] at isStarted
      rw [← isStarted]
      exact ⟨positive, short, Nat.le_refl _, (if_neg (Nat.not_le.mpr (lt_firesAt positive))).symm⟩
    · simp only [Function.update_of_ne same] at isStarted
      exact law.answered u record isStarted
  · intro u
    rw [members u]
    by_cases same : u = t
    · rw [same]
      refine ⟨fun _ => ⟨_, Function.update_self _ _ _, lt_firesAt positive⟩, fun _ => Or.inl rfl⟩
    · simp only [Function.update_of_ne same]
      rw [← law.listed u]
      exact ⟨fun listed => listed.resolve_left same, Or.inr⟩
  · intro u inside record isStarted
    rcases (members u).mp inside with isNew | old
    · rw [isNew] at isStarted ⊢
      simp only [Function.update_self, Option.some.injEq] at isStarted
      rw [← isStarted]
      change Function.update s.timers.expiryTick t _ t = _
      rw [Function.update_self, law.ticks, Nat.mod_add_mod]
    · simp only [Function.update_of_ne (apart u old)] at isStarted
      exact (only.fields u (apart u old)).expiryTick.trans (law.expiry u old record isStarted)

theorem OneShot.Answered.tick {times now : Nat} (answered : start.Answered now)
    (once : times = if firesAt start.armedAt start.delay = now + 1 then 1 else 0) :
    (start.called times (now + 1)).Answered (now + 1) := by
  refine ⟨answered.positive, answered.short, Nat.le_succ_of_le answered.armed, ?_⟩
  change start.firings ++ List.replicate times (now + 1) =
    if firesAt start.armedAt start.delay ≤ now + 1 then [firesAt start.armedAt start.delay] else []
  rw [answered.firings, once]
  by_cases past : firesAt start.armedAt start.delay ≤ now
  · have soon : firesAt start.armedAt start.delay ≤ now + 1 := by omega
    have notNow : ¬ firesAt start.armedAt start.delay = now + 1 := by omega
    rw [if_pos past, if_pos soon, if_neg notNow]
    rfl
  · by_cases isNow : firesAt start.armedAt start.delay = now + 1
    · rw [if_neg past, if_pos isNow, if_pos (Nat.le_of_eq isNow), isNow]
      rfl
    · have notSoon : ¬ firesAt start.armedAt start.delay ≤ now + 1 := by omega
      rw [if_neg past, if_neg isNow, if_neg notSoon]
      rfl

section Tick

variable {ticked drained : Timers} {fired left : List TimerAddr}

/-- A timer of the list is called by a tick exactly if the tick is its own. -/
theorem OneShotLaw.called_iff (law : OneShotLaw s order)
    (drains : Drained ticked order fired left drained)
    (expiry : ticked.expiryTick = s.timers.expiryTick)
    (now : ticked.tickCount = (s.now + 1) % uint32Size) (isStarted : s.started t = some start)
    (inside : t ∈ order) : t ∈ fired ↔ firesAt start.armedAt start.delay = s.now + 1 := by
  obtain ⟨other, isOther, ahead⟩ := (law.listed t).mp inside
  cases isStarted.symm.trans isOther
  have answered := law.answered t start isStarted
  have due := expired_iff answered.positive answered.short answered.armed ahead
  rw [← law.expiry t inside start isStarted, ← now, ← expiry] at due
  constructor
  · intro isFired
    have reached := due.mp (drains.early t isFired)
    omega
  · intro isNow
    have expired := due.mpr (Nat.le_of_eq isNow)
    rw [drains.split] at inside
    rcases List.mem_append.mp inside with isFired | isLeft
    · exact isFired
    · exact absurd expired (Nat.not_le.mpr (drains.late t isLeft))

theorem OneShotLaw.count_called (law : OneShotLaw s order)
    (drains : Drained ticked order fired left drained)
    (expiry : ticked.expiryTick = s.timers.expiryTick)
    (now : ticked.tickCount = (s.now + 1) % uint32Size) (isStarted : s.started t = some start) :
    fired.count t = if firesAt start.armedAt start.delay = s.now + 1 then 1 else 0 := by
  have distinct := law.formed.path.nodup
  rw [drains.split] at distinct
  obtain ⟨firedDistinct, _, _⟩ := List.nodup_append.mp distinct
  by_cases inside : t ∈ order
  · have called := law.called_iff drains expiry now isStarted inside
    by_cases isFired : t ∈ fired
    · rw [if_pos (called.mp isFired), List.count_eq_one_of_mem firedDistinct isFired]
    · rw [if_neg (fun isNow => isFired (called.mpr isNow)),
        List.count_eq_zero_of_not_mem isFired]
  · have past : ¬ s.now < firesAt start.armedAt start.delay := fun ahead =>
      inside ((law.listed t).mpr ⟨start, isStarted, ahead⟩)
    have notFired : t ∉ fired := fun isFired => inside (drains.mem_fired isFired)
    rw [if_neg (by omega), List.count_eq_zero_of_not_mem notFired]

end Tick

theorem tick_oneShotLaw (law : OneShotLaw s order) :
    ∃ after left, oneShotStep s .tick = some after ∧ OneShotLaw after left := by
  have ticked : (s.timers.tickCount + 1) % uint32Size = (s.now + 1) % uint32Size := by
    rw [law.ticks, Nat.mod_add_mod]
  have enough : order.length < drainLimit :=
    Nat.lt_succ_of_le (timerWalk_enough law.formed.path)
  obtain ⟨fired, left, drained, ends, drains⟩ :=
    @Timers.WellFormed.drains_oneShots
      { s.timers with tickCount := (s.timers.tickCount + 1) % uint32Size } order drainLimit
      ⟨⟨law.formed.path, law.formed.sorted⟩, law.formed.active, law.formed.period⟩
      (fun u inside => by simp [law.oneShot u inside]) law.callback enough
  have stepped : oneShotStep s .tick = some
      { timers := drained
        now := s.now + 1
        started := fun t =>
          (s.started t).map fun start => start.called (fired.count t) (s.now + 1) } := by
    simp only [oneShotStep, ends, Option.map_some]
  have distinct := law.formed.path.nodup
  rw [drains.split] at distinct
  have notFired : ∀ u ∈ left, u ∉ fired := fun u inside again =>
    (List.nodup_append.mp distinct).2.2 u again u inside rfl
  refine ⟨_, left, stepped, drains.formed, ?_, ?_, drains.tickCount.trans ticked, ?_, ?_, ?_⟩
  · intro u inside
    exact (drains.others u (notFired u inside)).periodic.trans
      (law.oneShot u (drains.mem_left inside))
  · intro u inside
    rw [(drains.others u (notFired u inside)).callback]
    exact law.callback u (drains.mem_left inside)
  · intro u record isStarted
    obtain ⟨start, wasStarted, rfl⟩ := Option.map_eq_some_iff.mp isStarted
    exact (law.answered u start wasStarted).tick (law.count_called drains rfl ticked wasStarted)
  · intro u
    constructor
    · intro inside
      have listed := drains.mem_left inside
      obtain ⟨start, wasStarted, ahead⟩ := (law.listed u).mp listed
      refine ⟨start.called (fired.count u) (s.now + 1), by simp only [wasStarted, Option.map_some],
        ?_⟩
      have notNow : firesAt start.armedAt start.delay ≠ s.now + 1 := fun isNow =>
        notFired u inside ((law.called_iff drains rfl ticked wasStarted listed).mpr isNow)
      change s.now + 1 < firesAt start.armedAt start.delay
      omega
    · rintro ⟨record, isStarted, ahead⟩
      obtain ⟨start, wasStarted, rfl⟩ := Option.map_eq_some_iff.mp isStarted
      change s.now + 1 < firesAt start.armedAt start.delay at ahead
      have inside : u ∈ order := (law.listed u).mpr ⟨start, wasStarted, by omega⟩
      have isLeft := inside
      rw [drains.split] at isLeft
      rcases List.mem_append.mp isLeft with isFired | stays
      · have isNow := (law.called_iff drains rfl ticked wasStarted inside).mp isFired
        omega
      · exact stays
  · intro u inside record isStarted
    obtain ⟨start, wasStarted, rfl⟩ := Option.map_eq_some_iff.mp isStarted
    exact (drains.others u (notFired u inside)).expiryTick.trans
      (law.expiry u (drains.mem_left inside) start wasStarted)

theorem OneShotLaw.step {action : OneShotAction} (law : OneShotLaw s order)
    (allowed : OneShotAllowed s action) :
    ∃ after added, oneShotStep s action = some after ∧ OneShotLaw after added := by
  cases action with
  | start t delayTicks cb arg => exact start_oneShotLaw law allowed
  | tick => exact tick_oneShotLaw law

theorem exists_oneShotLaw (reached : Reachable OneShotBoot oneShotStep OneShotAllowed s) :
    ∃ order, OneShotLaw s order := by
  refine reached.invariant (fun s => ∃ order, OneShotLaw s order) ?_ ?_
  · exact fun s boot => ⟨[], boot.law⟩
  · intro s action after holds allowed taken
    obtain ⟨order, law⟩ := holds
    obtain ⟨result, added, returned, kept⟩ := law.step allowed
    rw [taken] at returned
    cases returned
    exact ⟨added, kept⟩

/-! ### The results -/

/-- The timer has been called during the `delay`-th tick after its start and at no
other tick, and every other timer as in any run in which it was started at the same
tick for the same delay. -/
structure RightAcrossWrap (s : OneShotRun) (t : TimerAddr) (start : OneShot) : Prop where
  onTime : start.firings = if start.armedAt + start.delay ≤ s.now then
    [start.armedAt + start.delay] else []
  others : ∀ other, Reachable OneShotBoot oneShotStep OneShotAllowed other → other.now = s.now →
    ∀ u, u ≠ t → ∀ mine theirs, s.started u = some mine → other.started u = some theirs →
    mine.armedAt = theirs.armedAt → mine.delay = theirs.delay → mine.firings = theirs.firings

theorem OneShotLaw.onTime_iff (law : OneShotLaw s order) (isStarted : s.started t = some start)
    (ticked : start.armedAt < s.now) :
    (start.firings = if start.armedAt + start.delay ≤ s.now then
      [start.armedAt + start.delay] else []) ↔ Timely start.armedAt start.delay := by
  have answered := law.answered t start isStarted
  rw [answered.firings]
  unfold firesAt
  by_cases timely : Timely start.armedAt start.delay
  · rw [if_pos timely]
    exact ⟨fun _ => timely, fun _ => rfl⟩
  · have early : start.armedAt + 1 ≤ s.now := ticked
    have longer : 1 < start.delay := by
      have below := Nat.mod_lt start.armedAt (show 0 < uint32Size by decide)
      have positive := answered.positive
      unfold Timely at timely
      omega
    rw [if_neg timely, if_pos early]
    refine ⟨fun same => ?_, fun isTimely => absurd isTimely timely⟩
    split at same
    · have equal := (List.cons.inj same).1
      omega
    · cases same

/-- In every run of starts and ticks every permitted step returns, and a timer that
was started with delay `d` at the tick value `a` is right, one tick or more later,
exactly if `a + d` does not wrap or `a` is the last value before the wrap. -/
theorem rightAcrossWrap_iff (s : OneShotRun)
    (reached : Reachable OneShotBoot oneShotStep OneShotAllowed s) :
    (∀ action, OneShotAllowed s action → ∃ after, oneShotStep s action = some after) ∧
      ∀ t start, s.started t = some start → start.armedAt < s.now →
        (RightAcrossWrap s t start ↔
          start.armedAt % uint32Size + start.delay < uint32Size ∨
            start.armedAt % uint32Size = uint32Size - 1) := by
  obtain ⟨order, law⟩ := exists_oneShotLaw reached
  refine ⟨fun action allowed => ?_, fun t start isStarted ticked => ⟨fun right => ?_, ?_⟩⟩
  · obtain ⟨after, _, returned, _⟩ := law.step allowed
    exact ⟨after, returned⟩
  · exact (law.onTime_iff isStarted ticked).mp right.onTime
  · intro timely
    refine ⟨(law.onTime_iff isStarted ticked).mpr timely, ?_⟩
    intro other otherReached sameTick u _ mine theirs isMine isTheirs sameStart sameDelay
    obtain ⟨otherOrder, otherLaw⟩ := exists_oneShotLaw otherReached
    rw [(law.answered u mine isMine).firings, (otherLaw.answered u theirs isTheirs).firings,
      sameStart, sameDelay, sameTick]

def oneShotCheck (s : OneShotRun) : OneShotAction → Bool
  | .start t delayTicks _ _ => !s.timers.lists t &&
      decide (1 ≤ delayTicks ∧ delayTicks < 2147483648)
  | .tick => true

theorem oneShotAllowed_of_check (s : OneShotRun) (action : OneShotAction)
    (checked : oneShotCheck s action = true) : OneShotAllowed s action := by
  cases action with
  | start t delayTicks cb arg =>
      simp only [oneShotCheck, Bool.and_eq_true, Bool.not_eq_true', decide_eq_true_eq] at checked
      exact ⟨not_reaches_of_lists checked.1, checked.2⟩
  | tick => trivial

def nearWrap : OneShotRun where
  timers := { initialTimers.timers with tickCount := 4294967294 }
  now := 4294967294
  started := fun _ => none

theorem oneShotBoot_nearWrap : OneShotBoot nearWrap := ⟨rfl, rfl, rfl⟩

theorem rightAcrossWrap_from_last_value :
    ∃ s start, s.started 2 = some start ∧ start.armedAt = 4294967295 ∧ start.delay = 3 ∧
      start.firings = [4294967298] ∧ RightAcrossWrap s 2 start := by
  obtain ⟨s, reached, found⟩ :=
    @exists_reachable_of_run OneShotRun OneShotAction OneShotBoot oneShotStep OneShotAllowed
      oneShotCheck
      (fun s => decide (s.now = 4294967298 ∧ s.started 2 = some
        { armedAt := 4294967295, delay := 3, firings := [4294967298] }))
      oneShotAllowed_of_check
      [.start 1 1 7 0, .tick, .start 2 3 8 0, .tick, .tick, .tick] nearWrap oneShotBoot_nearWrap
      (by decide +kernel)
  obtain ⟨isNow, isStarted⟩ := of_decide_eq_true found
  refine ⟨s, _, isStarted, rfl, rfl, rfl, ?_⟩
  refine ((rightAcrossWrap_iff s reached).2 2 _ isStarted ?_).mpr (Or.inr (by decide))
  rw [isNow]
  decide

/-- Started one tick earlier for two ticks, it is called after one. -/
theorem not_rightAcrossWrap_of_wrapped :
    ¬ ∀ s, Reachable OneShotBoot oneShotStep OneShotAllowed s → ∀ t start,
      s.started t = some start → RightAcrossWrap s t start := by
  intro always
  obtain ⟨s, reached, found⟩ :=
    @exists_reachable_of_run OneShotRun OneShotAction OneShotBoot oneShotStep OneShotAllowed
      oneShotCheck
      (fun s => decide (s.now = 4294967295 ∧ s.started 1 = some
        { armedAt := 4294967294, delay := 2, firings := [4294967295] }))
      oneShotAllowed_of_check [.start 1 2 7 0, .tick] nearWrap oneShotBoot_nearWrap
      (by decide +kernel)
  obtain ⟨isNow, isStarted⟩ := of_decide_eq_true found
  have asked := (always s reached 1 _ isStarted).onTime
  rw [isNow] at asked
  revert asked
  decide

end MicrokernelRtos
