/-
One call of `sw_timer_tick_process` whose callbacks return and do not call the
timer functions.

Each turn of the loop takes the first timer out of the list, and puts a periodic
one back at the expiry `now + period_ticks`, computed in 32 bits.  A sum that
wraps is not behind `now`, so that the timer is due again at once.
-/

import MicrokernelRtos.SoftTimer

namespace MicrokernelRtos

open Linked

/-- `sw_timer_tick_process`, with the timers whose callbacks it has called.  The
loop spends the fuel. -/
def swTimerTickProcess : Nat → Timers → Option (List TimerAddr × Timers)
  | 0, _ => none
  | fuel + 1, timers =>
      match headDue timers with
      | none => some ([], timers)
      | some due =>
          (afterCallback (unlinkDue timers due) due).bind fun returned =>
            (swTimerTickProcess fuel returned).map fun rest =>
              (if (timers.callback due).isSome then due :: rest.1 else rest.1, rest.2)

variable {timers : Timers} {order rest : List TimerAddr} {first t : TimerAddr}

/-- The list is acyclic and sorted, its timers are active, and the periods of the
periodic ones are values of 32 bits above zero. -/
structure Timers.WellFormed (timers : Timers) (order : List TimerAddr) : Prop
    extends timers.Sorted order where
  active : ∀ t ∈ order, timers.active t = true
  period : ∀ t ∈ order, timers.periodic t = true →
    1 ≤ timers.periodTicks t ∧ timers.periodTicks t < uint32Size

def Timers.WrapsNow (timers : Timers) (t : TimerAddr) : Prop :=
  timers.periodic t = true ∧ timers.expiryTick t ≤ timers.tickCount ∧
    uint32Size ≤ timers.tickCount + timers.periodTicks t

/-- The call returns, with no callback called twice. -/
def Timers.DrainsOnce (timers : Timers) : Prop :=
  ∃ fuel fired drained, swTimerTickProcess fuel timers = some (fired, drained) ∧ fired.Nodup

/-! ### One turn of the loop -/

theorem Timers.WellFormed.headDue_eq (formed : timers.WellFormed (first :: rest)) :
    headDue timers =
      if timers.expiryTick first ≤ timers.tickCount then some first else none := by
  have isHead : timers.timerList = some first := formed.path.1
  have isActive : timers.active first = true := formed.active first List.mem_cons_self
  rw [headDue, isHead]
  by_cases due : timers.expiryTick first ≤ timers.tickCount
  · simp [isActive, due]
  · simp [isActive, due, Nat.lt_of_not_le due]

/-- What one turn leaves: every other timer as it was, and the first one in the
list again exactly if it is periodic, at its next expiry. -/
structure Timers.Turned (timers turned : Timers) (first : TimerAddr)
    (rest order : List TimerAddr) : Prop where
  formed : turned.WellFormed order
  members : ∀ u, u ∈ order ↔ (u = first ∧ timers.periodic first = true) ∨ u ∈ rest
  others : ∀ u, u ≠ first → SameTimer timers turned u
  tickCount : turned.tickCount = timers.tickCount
  periodic : turned.periodic first = timers.periodic first
  periodTicks : turned.periodTicks first = timers.periodTicks first
  expiry : timers.periodic first = true → turned.expiryTick first =
    (timers.tickCount + timers.periodTicks first) % uint32Size

def Timers.advanced (timers : Timers) (first : TimerAddr) : Timers :=
  { unlinkDue timers first with
    expiryTick := Function.update timers.expiryTick first
      ((timers.tickCount + timers.periodTicks first) % uint32Size)
    next := Function.update (unlinkDue timers first).next first none }

theorem advanced_only (timers : Timers) (first : TimerAddr) :
    OnlyTimer (unlinkDue timers first) (timers.advanced first) first := by
  refine ⟨fun u different => ?_, fun u different => ?_, rfl, rfl, rfl, rfl⟩
  · refine ⟨?_, rfl, rfl, rfl, rfl, rfl⟩
    exact Function.update_of_ne different _ _
  · exact Function.update_of_ne different _ _

theorem Timers.WellFormed.unlinked (formed : timers.WellFormed (first :: rest)) :
    first ∉ rest ∧ (unlinkDue timers first).Sorted rest := by
  have outside : first ∉ rest := (List.nodup_cons.mp formed.path.nodup).1
  exact ⟨outside, formed.path.2.update_of_notMem outside none,
    (List.pairwise_cons.mp formed.sorted).2⟩

theorem Timers.WellFormed.turn_oneShot (formed : timers.WellFormed (first :: rest))
    (oneShot : timers.periodic first ≠ true) :
    ∃ turned, afterCallback (unlinkDue timers first) first = some turned ∧
      timers.Turned turned first rest rest := by
  obtain ⟨outside, unlinked⟩ := formed.unlinked
  have apart : ∀ u ∈ rest, u ≠ first := by
    rintro u member rfl
    exact outside member
  have inRest : ∀ u ∈ rest, u ∈ first :: rest := fun u inside => List.mem_cons_of_mem first inside
  refine ⟨{ unlinkDue timers first with
        active := Function.update timers.active first false }, ?_,
    ⟨⟨⟨unlinked.path, unlinked.sorted⟩, ?_, ?_⟩, ?_, ?_, rfl, rfl, rfl,
      fun isPeriodic => absurd isPeriodic oneShot⟩⟩
  · rw [afterCallback, if_neg (by exact oneShot)]
    rfl
  · intro u inside
    exact (Function.update_of_ne (apart u inside) _ _).trans (formed.active u (inRest u inside))
  · exact fun u inside => formed.period u (inRest u inside)
  · intro u
    simp [oneShot]
  · exact fun u different => ⟨rfl, rfl, rfl, rfl, rfl, Function.update_of_ne different _ _⟩

theorem Timers.WellFormed.turn (formed : timers.WellFormed (first :: rest)) :
    ∃ turned order, afterCallback (unlinkDue timers first) first = some turned ∧
      timers.Turned turned first rest order := by
  by_cases periodic : timers.periodic first = true
  · obtain ⟨outside, unlinked⟩ := formed.unlinked
    have only := advanced_only timers first
    obtain ⟨next, head, added, returned, sorted, _, members⟩ := unlinked.insert only outside
    have inList : ∀ u ∈ added, u ∈ first :: rest := fun u inside =>
      List.mem_cons.mpr ((members u).mp inside)
    refine ⟨_, added, ?_, ⟨⟨sorted, ?_, ?_⟩, ?_, ?_, rfl, rfl, rfl, fun _ => ?_⟩⟩
    · rw [afterCallback, if_pos (by exact periodic)]
      exact returned
    · exact fun u inside => formed.active u (inList u inside)
    · exact fun u inside => formed.period u (inList u inside)
    · intro u
      rw [members u]
      simp [periodic]
    · exact fun u different => ⟨(only.fields u different).expiryTick, rfl, rfl, rfl, rfl, rfl⟩
    · exact Function.update_self first _ _
  · obtain ⟨turned, returned, turn⟩ := formed.turn_oneShot periodic
    exact ⟨turned, rest, returned, turn⟩

/-! ### The loop -/

theorem swTimerTickProcess_turn {turned : Timers} {fuel : Nat}
    (formed : timers.WellFormed (first :: rest))
    (due : timers.expiryTick first ≤ timers.tickCount)
    (returned : afterCallback (unlinkDue timers first) first = some turned) :
    swTimerTickProcess (fuel + 1) timers = (swTimerTickProcess fuel turned).map fun later =>
      (if (timers.callback first).isSome then first :: later.1 else later.1, later.2) := by
  rw [swTimerTickProcess, formed.headDue_eq, if_pos due]
  dsimp only
  rw [returned]
  rfl

def Timers.dueIn (timers : Timers) (order : List TimerAddr) : List TimerAddr :=
  order.filter fun t => decide (timers.expiryTick t ≤ timers.tickCount)

theorem Timers.Turned.due_iff {turned : Timers} (turn : timers.Turned turned first rest order)
    (outside : first ∉ rest) (behind : timers.periodic first = true →
      timers.tickCount < turned.expiryTick first) (u : TimerAddr) :
    u ∈ turned.dueIn order ↔ u ∈ timers.dueIn rest := by
  simp only [Timers.dueIn, List.mem_filter, decide_eq_true_eq, turn.tickCount, turn.members]
  by_cases same : u = first
  · subst u
    constructor
    · rintro ⟨⟨_, periodic⟩ | inside, expiry⟩
      · exact absurd expiry (Nat.not_le.mpr (behind periodic))
      · exact absurd inside outside
    · rintro ⟨inside, _⟩
      exact absurd inside outside
  · rw [(turn.others u same).expiryTick]
    simp [same]

theorem Timers.Turned.dueIn_length {turned : Timers}
    (turn : timers.Turned turned first rest order) (distinct : (first :: rest).Nodup)
    (behind : timers.periodic first = true → timers.tickCount < turned.expiryTick first) :
    (turned.dueIn order).length = (timers.dueIn rest).length := by
  obtain ⟨outside, apart⟩ := List.nodup_cons.mp distinct
  have perm : (turned.dueIn order).Perm (timers.dueIn rest) :=
    (List.perm_ext_iff_of_nodup (turn.formed.path.nodup.filter _) (apart.filter _)).mpr
      (turn.due_iff outside behind)
  exact perm.length_eq

theorem Timers.WellFormed.nothing_due (formed : timers.WellFormed (first :: rest))
    (ahead : ¬ timers.expiryTick first ≤ timers.tickCount) (fuel : Nat) :
    swTimerTickProcess (fuel + 1) timers = some ([], timers) := by
  rw [swTimerTickProcess, formed.headDue_eq, if_neg ahead]

theorem Timers.WellFormed.next_behind (formed : timers.WellFormed order) (member : t ∈ order)
    (due : timers.expiryTick t ≤ timers.tickCount) (fits : ¬ timers.WrapsNow t)
    (periodic : timers.periodic t = true) :
    timers.tickCount < (timers.tickCount + timers.periodTicks t) % uint32Size := by
  have positive := (formed.period t member periodic).1
  have below : timers.tickCount + timers.periodTicks t < uint32Size :=
    Nat.lt_of_not_le fun wraps => fits ⟨periodic, due, wraps⟩
  rw [Nat.mod_eq_of_lt below]
  omega

theorem Timers.Turned.fits {turned : Timers} (turn : timers.Turned turned first rest order)
    (fits : ∀ t ∈ first :: rest, ¬ timers.WrapsNow t) (behind : timers.periodic first = true →
      timers.tickCount < turned.expiryTick first) : ∀ t ∈ order, ¬ turned.WrapsNow t := by
  rintro t member ⟨periodic, due, wraps⟩
  by_cases same : t = first
  · subst t
    rw [turn.periodic] at periodic
    rw [turn.tickCount] at due
    exact absurd due (Nat.not_le.mpr (behind periodic))
  · have kept := turn.others t same
    rw [kept.periodic] at periodic
    rw [kept.expiryTick, turn.tickCount] at due
    rw [kept.periodTicks, turn.tickCount] at wraps
    have inRest : t ∈ rest := by simpa [same] using (turn.members t).mp member
    exact fits t (List.mem_cons_of_mem first inRest) ⟨periodic, due, wraps⟩

theorem Timers.WellFormed.drains (formed : timers.WellFormed order)
    (fits : ∀ t ∈ order, ¬ timers.WrapsNow t) :
    ∃ fired drained,
      swTimerTickProcess ((timers.dueIn order).length + 1) timers = some (fired, drained) ∧
      fired.Nodup ∧ ∀ u ∈ fired, u ∈ timers.dueIn order := by
  generalize count : (timers.dueIn order).length = turns
  -- by induction on the number of timers that are due, which a turn lowers by one
  induction turns generalizing timers order with
  | zero =>
      refine ⟨[], timers, ?_, List.nodup_nil, by simp⟩
      cases order with
      | nil =>
          have empty : timers.timerList = none := formed.path
          rw [swTimerTickProcess, headDue, empty]
          rfl
      | cons first rest =>
          refine formed.nothing_due (fun due => ?_) 0
          simp [Timers.dueIn, due] at count
  | succ turns ih =>
      cases order with
      | nil => simp [Timers.dueIn] at count
      | cons first rest =>
          by_cases due : timers.expiryTick first ≤ timers.tickCount
          · obtain ⟨turned, order, returned, turn⟩ := formed.turn
            have outside : first ∉ rest := (List.nodup_cons.mp formed.path.nodup).1
            have behind : timers.periodic first = true →
                timers.tickCount < turned.expiryTick first := by
              intro periodic
              rw [turn.expiry periodic]
              exact formed.next_behind List.mem_cons_self due (fits first List.mem_cons_self)
                periodic
            have dueIff := turn.due_iff outside behind
            have isFirst : timers.dueIn (first :: rest) = first :: timers.dueIn rest := by
              simp [Timers.dueIn, due]
            have fewer : (turned.dueIn order).length = turns := by
              rw [isFirst, List.length_cons] at count
              rw [turn.dueIn_length formed.path.nodup behind]
              exact Nat.succ.inj count
            obtain ⟨fired, drained, ends, once, inside⟩ :=
              ih turn.formed (turn.fits fits behind) fewer
            have notFired : first ∉ fired := fun again =>
              outside (List.mem_filter.mp ((dueIff first).mp (inside first again))).1
            have firedDue : ∀ u ∈ fired, u ∈ timers.dueIn (first :: rest) := by
              intro u member
              rw [isFirst]
              exact List.mem_cons_of_mem first ((dueIff u).mp (inside u member))
            rw [swTimerTickProcess_turn formed due returned, ends]
            refine ⟨_, drained, rfl, ?_, ?_⟩
            · dsimp only
              split
              · exact List.nodup_cons.mpr ⟨notFired, once⟩
              · exact once
            · dsimp only
              split
              · intro u member
                rcases List.mem_cons.mp member with rfl | later
                · rw [isFirst]
                  exact List.mem_cons_self
                · exact firedDue u later
              · exact firedDue
          · refine ⟨[], timers, formed.nothing_due due _, List.nodup_nil, by simp⟩

/-- A timer whose next expiry wraps is due again, so that there is always one more
turn. -/
theorem Timers.WellFormed.never_drains (formed : timers.WellFormed order)
    (isTick : timers.tickCount < uint32Size) (member : t ∈ order) (wraps : timers.WrapsNow t)
    (fuel : Nat) : swTimerTickProcess fuel timers = none := by
  induction fuel generalizing timers order with
  | zero => rfl
  | succ fuel ih =>
      cases order with
      | nil => cases member
      | cons first rest =>
          have due : timers.expiryTick first ≤ timers.tickCount := by
            rcases List.mem_cons.mp member with rfl | later
            · exact wraps.2.1
            · exact ((List.pairwise_cons.mp formed.sorted).1 t later).trans wraps.2.1
          obtain ⟨turned, order, returned, turn⟩ := formed.turn
          rw [swTimerTickProcess_turn formed due returned]
          suffices again : t ∈ order ∧ turned.WrapsNow t by
            rw [ih turn.formed (turn.tickCount ▸ isTick) again.1 again.2]
            rfl
          obtain ⟨periodic, isDue, beyond⟩ := wraps
          by_cases same : t = first
          · subst t
            have period := (formed.period first List.mem_cons_self periodic).2
            refine ⟨(turn.members first).mpr (Or.inl ⟨rfl, periodic⟩),
              turn.periodic.trans periodic, ?_, ?_⟩
            · rw [turn.expiry periodic, turn.tickCount, Nat.mod_eq_sub_mod beyond,
                Nat.mod_eq_of_lt (by omega)]
              omega
            · rw [turn.tickCount, turn.periodTicks]
              exact beyond
          · have kept := turn.others t same
            refine ⟨(turn.members t).mpr (Or.inr (by simpa [same] using member)),
              kept.periodic.trans periodic, ?_, ?_⟩
            · rw [kept.expiryTick, turn.tickCount]
              exact isDue
            · rw [turn.tickCount, kept.periodTicks]
              exact beyond

/-- A call of `sw_timer_tick_process` returns, and fires no timer twice, exactly if
no periodic timer that is due has its next expiry beyond the last tick. -/
theorem drainsOnce_iff_noWrap (timers : Timers) (order : List TimerAddr)
    (formed : timers.WellFormed order) (isTick : timers.tickCount < uint32Size) :
    timers.DrainsOnce ↔ ∀ t ∈ order, timers.periodic t = true →
      timers.expiryTick t ≤ timers.tickCount →
      timers.tickCount + timers.periodTicks t < uint32Size := by
  constructor
  · rintro ⟨fuel, fired, drained, ends, _⟩ t member periodic due
    by_contra beyond
    have never := formed.never_drains isTick member ⟨periodic, due, Nat.le_of_not_lt beyond⟩ fuel
    rw [never] at ends
    cases ends
  · intro fits
    obtain ⟨fired, drained, ends, once, _⟩ := formed.drains fun t member wraps =>
      absurd (fits t member wraps.1 wraps.2.1) (Nat.not_lt.mpr wraps.2.2)
    exact ⟨_, fired, drained, ends, once⟩

/-- Three timers in the order of the list.  The first one is late, and the second, which
is periodic, expires now. -/
def threeTimers (now period later : Nat) : Timers where
  expiryTick := fun t => if t = 1 then now - 1 else if t = 2 then now else later
  periodTicks := fun t => if t = 2 then period else 0
  callback := fun _ => some 0
  callbackArg := fun _ => 0
  periodic := fun t => decide (t = 2)
  active := fun _ => true
  next := fun t => if t = 1 then some 2 else if t = 2 then some 3 else none
  timerList := some 1
  tickCount := now
  insertions := 3
  inserted := fun t => if t = 1 then 0 else if t = 2 then 1 else 2

theorem threeTimers_formed {now period later : Nat} (behind : now ≤ later) (positive : 1 ≤ period)
    (below : period < uint32Size) : (threeTimers now period later).WellFormed [1, 2, 3] := by
  refine ⟨⟨⟨rfl, rfl, rfl, rfl⟩, ?_⟩, fun _ _ => rfl, ?_⟩
  · have late : now ≤ later + 1 := Nat.le_succ_of_le behind
    simp [threeTimers, behind, late]
  · intro t _ periodic
    have isSecond : t = 2 := of_decide_eq_true periodic
    subst isSecond
    exact ⟨positive, below⟩

theorem threeTimers_drainsOnce : (threeTimers 5 3 9).DrainsOnce := by
  refine (drainsOnce_iff_noWrap (threeTimers 5 3 9) [1, 2, 3]
    (threeTimers_formed (by decide) (by decide) (by decide)) (by decide)).mpr ?_
  intro t _ periodic _
  have isSecond : t = 2 := of_decide_eq_true periodic
  subst isSecond
  decide

/-- At the last tick, a timer of period one is due again and again. -/
theorem lastTick_not_drainsOnce :
    ¬ ∀ (timers : Timers) (order : List TimerAddr), timers.WellFormed order →
      timers.tickCount < uint32Size → timers.DrainsOnce := by
  intro always
  have formed : (threeTimers (uint32Size - 1) 1 (uint32Size - 1)).WellFormed [1, 2, 3] :=
    threeTimers_formed (Nat.le_refl _) (by decide) (by decide)
  obtain ⟨fuel, fired, drained, ends, _⟩ := always _ [1, 2, 3] formed (by decide)
  have second : (2 : TimerAddr) ∈ [1, 2, 3] := by decide
  have never := formed.never_drains (by decide) second ⟨rfl, by decide, by decide⟩ fuel
  rw [never] at ends
  cases ends

end MicrokernelRtos
