/-
A start of a timer that is in the list already.

`sw_timer_start_once` and `sw_timer_start_periodic` clear the timer before the
sorted walk, and with it the link to the timers behind it, while the link of the
timer before it stays.  The walk over what is left ends at the timer itself, which
is then linked to itself, or earlier, and the timer is then reached a second time.
-/

import MicrokernelRtos.Runs.Draining

namespace MicrokernelRtos

open Linked

variable {timers : Timers} {order before after : List TimerAddr} {t : TimerAddr}

/-- The start returns with the list that stopping and starting leaves: acyclic,
sorted, with every other timer, and with the timer once, at its new expiry. -/
def RearmsAsRestarted (timers : Timers) (order : List TimerAddr) (t : TimerAddr) (ticks : Nat)
    (periodic : Bool) (cb arg : Nat) : Prop :=
  ∃ rearmed stopped restarted added,
    swTimerStart timers (some t) ticks periodic (some cb) arg = some (.ok, rearmed) ∧
    swTimerStop timers (some t) = some stopped ∧
    swTimerStart stopped (some t) ticks periodic (some cb) arg = some (.ok, restarted) ∧
    Path restarted.next restarted.timerList added none ∧
    rearmed.Sorted added ∧ (∀ u ∈ order, u ≠ t → u ∈ added) ∧ added.count t = 1 ∧
    rearmed.expiryTick t = timers.tickCount + ticks

theorem swTimerStart_eq {ticks : Nat} {periodic : Bool} {cb arg : Nat} (positive : 1 ≤ ticks) :
    swTimerStart timers (some t) ticks periodic (some cb) arg =
      (insertSorted (armTimer timers t ticks periodic cb arg) t).map fun armed => (.ok, armed) := by
  rw [swTimerStart, if_neg (by omega)]

/-! ### Stopped first -/

theorem Timers.Sorted.restart (formed : timers.Sorted order) (member : t ∈ order) {ticks : Nat}
    (periodic : Bool) (cb arg : Nat) (positive : 1 ≤ ticks)
    (fits : timers.tickCount + ticks < uint32Size) :
    ∃ stopped restarted added, swTimerStop timers (some t) = some stopped ∧
      swTimerStart stopped (some t) ticks periodic (some cb) arg = some (.ok, restarted) ∧
      restarted.Sorted added ∧ added.erase t = order.erase t ∧ added.count t = 1 ∧
      restarted.expiryTick t = timers.tickCount + ticks := by
  obtain ⟨front, back, split⟩ := List.append_of_mem member
  have path := formed.path
  rw [split] at path
  obtain ⟨next, head, stops, unlinked⟩ := swTimerStop_present path
  have distinct := path.nodup
  have outside : t ∉ front ++ back := (List.nodup_cons.mp
    (List.nodup_middle.mp distinct)).1
  have sorted := formed.sorted
  rw [split] at sorted
  have shorter : ({ timers with
      next := next
      timerList := head
      active := Function.update timers.active t false } : Timers).Sorted (front ++ back) :=
    ⟨unlinked, sorted.sublist ((List.sublist_cons_self t back).append_left front)⟩
  obtain ⟨linked, first, added, returned, inOrder, erased, members⟩ :=
    shorter.insert (armTimer_only _ t ticks periodic cb arg) outside
  refine ⟨_, _, added, stops, by rw [swTimerStart_eq positive, returned]; rfl, inOrder, ?_, ?_, ?_⟩
  · rw [erased, split, List.erase_append_right _ (fun inside => outside (by simp [inside])),
      List.erase_cons_head]
  · exact List.count_eq_one_of_mem inOrder.path.nodup ((members t).mpr (Or.inl rfl))
  · refine (Function.update_self t _ _).trans ?_
    exact Nat.mod_eq_of_lt fits

/-! ### Armed in place -/

/-- The chain that the sorted walk meets ends at the timer. -/
theorem armTimer_path (path : Path timers.next timers.timerList (before ++ t :: after) none)
    (ticks : Nat) (periodic : Bool) (cb arg : Nat) :
    Path (armTimer timers t ticks periodic cb arg).next
      (armTimer timers t ticks periodic cb arg).timerList (before ++ [t]) none := by
  have outside : t ∉ before := fun member =>
    (List.nodup_append.mp path.nodup).2.2 t member t List.mem_cons_self rfl
  obtain ⟨middle, reaches, rest⟩ := (path_append _ _ _ _ _).mp path
  obtain rfl : middle = some t := rest.1
  refine (path_concat _ _ _ _ _).mpr ⟨reaches.update_of_notMem outside none, ?_⟩
  exact Function.update_self t _ _

theorem insertSorted_endless (path : Path timers.next timers.timerList (before ++ [t]) none) :
    ∃ linked, insertSorted timers t = some linked ∧
      ∀ items, ¬ Path linked.next linked.timerList items none := by
  obtain ⟨reaches, _⟩ := (path_concat _ _ _ _ _).mp path
  obtain ⟨outside, distinct⟩ := (nodup_concat_iff before t).mp path.nodup
  have early : ∀ u ∈ before.takeWhile fun u => timers.expiryTick u ≤ timers.expiryTick t,
      timers.expiryTick u ≤ timers.expiryTick t := by
    intro u member
    simpa using List.all_eq_true.mp List.all_takeWhile u member
  have split := List.takeWhile_append_dropWhile
    (p := fun u => decide (timers.expiryTick u ≤ timers.expiryTick t)) (l := before)
  generalize before.takeWhile _ = front at early split
  cases back : before.dropWhile fun u => decide (timers.expiryTick u ≤ timers.expiryTick t) with
  | nil =>
      rw [back, List.append_nil] at split
      subst split
      have search := @chainSearch_eq _ timers.next
        (fun curr => !decide (timers.expiryTick curr ≤ timers.expiryTick t)) timers.timerList none
        (front ++ [t]) [] timerWalkLimit (by simpa using path)
        (by simpa [or_imp, forall_and] using early) (fun u isHead => by cases isHead)
        (by simpa using timerWalk_enough path)
      rw [Option.or_none, List.getLast?_concat] at search
      refine ⟨_, by rw [insertSorted, search]; rfl, fun items => ?_⟩
      have toTimer := (reaches.update_of_notMem outside none).update_of_notMem outside (some t)
      have returns : Path (Function.update (Function.update timers.next t none) t (some t))
          (some t) [t] (some t) := ⟨rfl, Function.update_self t _ _⟩
      exact Path.endless toTimer returns
  | cons second others =>
      have late : timers.expiryTick t < timers.expiryTick second := by
        have stops := List.head?_dropWhile_not
          (fun u => decide (timers.expiryTick u ≤ timers.expiryTick t)) before
        rw [back] at stops
        simpa using stops
      rw [back] at split
      subst split
      have search := @chainSearch_eq _ timers.next
        (fun curr => !decide (timers.expiryTick curr ≤ timers.expiryTick t)) timers.timerList none
        front (second :: others ++ [t]) timerWalkLimit (by simpa using path)
        (by simpa using early) (fun u isHead => by
          cases isHead
          simpa using late)
        (by simpa using timerWalk_enough path)
      rw [Option.or_none] at search
      obtain ⟨middle, toSecond, goesOn⟩ := (path_append _ _ _ _ _).mp reaches
      obtain rfl : middle = some second := goesOn.1
      have cycle := linkIn_path_to toSecond goesOn distinct outside
      obtain ⟨last, toTimer, returns⟩ := (path_append _ _ _ _ _).mp cycle
      obtain rfl : last = some t := returns.1
      refine ⟨_, by rw [insertSorted, search]; rfl, fun items => ?_⟩
      exact Path.endless toTimer returns

theorem Timers.Sorted.not_rearms (formed : timers.Sorted order) (member : t ∈ order)
    {ticks : Nat} (positive : 1 ≤ ticks) (periodic : Bool) (cb arg : Nat) :
    ¬ RearmsAsRestarted timers order t ticks periodic cb arg := by
  rintro ⟨rearmed, _, _, added, returned, _, _, _, inOrder, _⟩
  obtain ⟨before, after, rfl⟩ := List.append_of_mem member
  obtain ⟨linked, inserted, endless⟩ :=
    insertSorted_endless (armTimer_path formed.path ticks periodic cb arg)
  rw [swTimerStart_eq positive, inserted] at returned
  cases returned
  exact endless added inOrder.path

/-- A timer that is armed while it is in the list leaves a list without an end,
where stopping it first leaves the list in order. -/
theorem rearm_never_restarts (timers : Timers) (order : List TimerAddr) (t : TimerAddr)
    (ticks : Nat) (periodic : Bool) (cb arg : Nat) (formed : timers.Sorted order)
    (member : t ∈ order) (positive : 1 ≤ ticks) (fits : timers.tickCount + ticks < uint32Size) :
    ¬ RearmsAsRestarted timers order t ticks periodic cb arg ∧
      ∃ stopped restarted added, swTimerStop timers (some t) = some stopped ∧
        swTimerStart stopped (some t) ticks periodic (some cb) arg = some (.ok, restarted) ∧
        restarted.Sorted added ∧ added.erase t = order.erase t ∧ added.count t = 1 ∧
        restarted.expiryTick t = timers.tickCount + ticks :=
  ⟨formed.not_rearms member positive periodic cb arg,
    formed.restart member periodic cb arg positive fits⟩

theorem threeTimers_rearm :
    ¬ RearmsAsRestarted (threeTimers 5 3 9) [1, 2, 3] 2 4 false 0 0 :=
  (rearm_never_restarts (threeTimers 5 3 9) [1, 2, 3] 2 4 false 0 0
    (threeTimers_formed (by decide) (by decide) (by decide)).toSorted (by decide) (by decide)
    (by decide)).1

theorem not_rearm_as_restart :
    ¬ ∀ (timers : Timers) (order : List TimerAddr) (t : TimerAddr) (ticks : Nat)
      (periodic : Bool) (cb arg : Nat), timers.Sorted order → t ∈ order → 1 ≤ ticks →
      timers.tickCount + ticks < uint32Size →
      RearmsAsRestarted timers order t ticks periodic cb arg := by
  intro always
  have formed : (threeTimers 5 3 9).Sorted [1, 2, 3] :=
    (threeTimers_formed (by decide) (by decide) (by decide)).toSorted
  have second : (2 : TimerAddr) ∈ [1, 2, 3] := by decide
  exact formed.not_rearms second (by decide) false 0 0
    (always (threeTimers 5 3 9) [1, 2, 3] 2 4 false 0 0 formed second (by decide) (by decide))

end MicrokernelRtos
