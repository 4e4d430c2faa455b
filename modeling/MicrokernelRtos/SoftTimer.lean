/-
sw_timer.c: timers in a singly linked list that is sorted by expiry, walked from
the tick.

A timer is storage of the caller, so its address is any 32-bit value.  Sums of
ticks are computed in 32 bits.  The drain loop of `sw_timer_tick_process` is kept
in two parts, because the callback of the timer that is due runs between them and
may call the functions of this file.
-/

import MicrokernelRtos.Library.Chain
import MicrokernelRtos.KernelState

namespace MicrokernelRtos

open Linked

abbrev TimerAddr := UInt32

/-- `sw_timer_t`, one function for each field, with `timer_list` and the tick
counter that `rtos_get_tick` reads. -/
structure Timers where
  expiryTick : TimerAddr → Nat
  periodTicks : TimerAddr → Nat
  callback : TimerAddr → Option Nat
  callbackArg : TimerAddr → Nat
  periodic : TimerAddr → Bool
  active : TimerAddr → Bool
  next : TimerAddr → Option TimerAddr
  timerList : Option TimerAddr
  tickCount : Nat
  /-- How many insertions there have been, and the number of the last one of a
  timer.  The code keeps no such record. -/
  insertions : Nat
  inserted : TimerAddr → Nat

def swTimerInit (timers : Timers) : Timers := { timers with timerList := none }

/-- A walk that takes more steps than there are addresses never ends. -/
def timerWalkLimit : Nat := uint32Size

def Timers.relinked (timers : Timers) (next : TimerAddr → Option TimerAddr)
    (timerList : Option TimerAddr) (t : TimerAddr) : Timers :=
  { timers with
    next := next
    timerList := timerList
    insertions := timers.insertions + 1
    inserted := Function.update timers.inserted t timers.insertions }

def insertSorted (timers : Timers) (t : TimerAddr) : Option Timers :=
  (chainSearch timers.next
      (fun curr => !decide (timers.expiryTick curr ≤ timers.expiryTick t)) timerWalkLimit none
      timers.timerList).map fun found =>
    let linked := linkIn timers.next timers.timerList found.1 found.2 t
    timers.relinked linked.1 linked.2 t

/-- The lines that `sw_timer_start_once` and `sw_timer_start_periodic` share; a
one-shot timer has no period. -/
def armTimer (timers : Timers) (t : TimerAddr) (ticks : Nat) (periodic : Bool) (cb arg : Nat) :
    Timers :=
  { timers with
    expiryTick := Function.update timers.expiryTick t ((timers.tickCount + ticks) % uint32Size)
    periodTicks := Function.update timers.periodTicks t (if periodic then ticks else 0)
    callback := Function.update timers.callback t (some cb)
    callbackArg := Function.update timers.callbackArg t arg
    periodic := Function.update timers.periodic t periodic
    active := Function.update timers.active t true
    next := Function.update timers.next t none }

def swTimerStart (timers : Timers) (t : Option TimerAddr) (ticks : Nat) (periodic : Bool)
    (cb : Option Nat) (arg : Nat) : Option (Status × Timers) :=
  match t, cb with
  | some t, some cb =>
      if ticks = 0 then some (.errParam, timers)
      else (insertSorted (armTimer timers t ticks periodic cb arg) t).map fun armed => (.ok, armed)
  | _, _ => some (.errParam, timers)

def swTimerStartOnce (timers : Timers) (t : Option TimerAddr) (delayTicks : Nat)
    (cb : Option Nat) (arg : Nat) : Option (Status × Timers) :=
  swTimerStart timers t delayTicks false cb arg

def swTimerStartPeriodic (timers : Timers) (t : Option TimerAddr) (periodTicks : Nat)
    (cb : Option Nat) (arg : Nat) : Option (Status × Timers) :=
  swTimerStart timers t periodTicks true cb arg

def swTimerStop (timers : Timers) (t : Option TimerAddr) : Option Timers :=
  match t with
  | none => some timers
  | some t =>
      (chainSearch timers.next (fun curr => decide (curr = t)) timerWalkLimit none
          timers.timerList).map fun found =>
        match found.2 with
        | none => timers
        | some _ =>
            let unlinked := linkOut timers.next timers.timerList found.1 t
            { timers with
              next := unlinked.1
              timerList := unlinked.2
              active := Function.update timers.active t false }

/-- The condition of the loop of `sw_timer_tick_process`: the first timer, if it
is active and due. -/
def headDue (timers : Timers) : Option TimerAddr :=
  timers.timerList.filter fun head =>
    timers.active head && decide (timers.expiryTick head ≤ timers.tickCount)

/-- The body of the loop before the callback. -/
def unlinkDue (timers : Timers) (due : TimerAddr) : Timers :=
  { timers with
    timerList := timers.next due
    next := Function.update timers.next due none }

/-- The body of the loop behind the callback. -/
def afterCallback (timers : Timers) (due : TimerAddr) : Option Timers :=
  if timers.periodic due then
    insertSorted
      { timers with
        expiryTick := Function.update timers.expiryTick due
          ((timers.tickCount + timers.periodTicks due) % uint32Size)
        next := Function.update timers.next due none } due
  else some { timers with active := Function.update timers.active due false }

/-! ### What the functions do to the list -/

variable {timers : Timers} {t : TimerAddr} {before after order : List TimerAddr}

theorem timerWalk_enough (path : Path timers.next timers.timerList order none) :
    order.length ≤ timerWalkLimit := by
  have distinct : (order.map UInt32.toNat).Nodup :=
    path.nodup.map fun left right same => UInt32.toNat.inj same
  have bounded : ∀ address ∈ order.map UInt32.toNat, address < timerWalkLimit := by
    intro address member
    obtain ⟨t, _, rfl⟩ := List.mem_map.mp member
    exact t.toNat_lt
  simpa using length_le_of_bounded distinct bounded

/-- The timer comes behind those that expire no later than it. -/
theorem insertSorted_spec (path : Path timers.next timers.timerList (before ++ after) none)
    (new : t ∉ before ++ after)
    (early : ∀ u ∈ before, timers.expiryTick u ≤ timers.expiryTick t)
    (late : ∀ u ∈ after, timers.expiryTick t < timers.expiryTick u) :
    ∃ next head, insertSorted timers t = some (timers.relinked next head t) ∧
      Path next head (before ++ t :: after) none := by
  have search := @chainSearch_eq _ timers.next
    (fun curr => !decide (timers.expiryTick curr ≤ timers.expiryTick t)) timers.timerList none
    before after timerWalkLimit path (by simpa using early)
    (fun u isHead => by simpa using late u (List.mem_of_head? isHead)) (timerWalk_enough path)
  rw [Option.or_none] at search
  refine ⟨_, _, ?_, linkIn_path path new⟩
  rw [insertSorted, search]
  rfl

theorem swTimerStop_absent (path : Path timers.next timers.timerList order none)
    (absent : t ∉ order) : swTimerStop timers (some t) = some timers := by
  have search := @chainSearch_eq _ timers.next (fun curr => decide (curr = t)) timers.timerList
    none order [] timerWalkLimit (by simpa using path)
    (fun u member => by
      rw [decide_eq_false_iff_not]
      rintro rfl
      exact absent member)
    (fun u isHead => by cases isHead) (by simpa using timerWalk_enough path)
  rw [swTimerStop, search]
  rfl

theorem swTimerStop_present
    (path : Path timers.next timers.timerList (before ++ t :: after) none) :
    ∃ next head, swTimerStop timers (some t) = some
        { timers with
          next := next
          timerList := head
          active := Function.update timers.active t false } ∧
      Path next head (before ++ after) none := by
  have outside : t ∉ before := fun member =>
    (List.nodup_append.mp path.nodup).2.2 t member t List.mem_cons_self rfl
  have search := @chainSearch_eq _ timers.next (fun curr => decide (curr = t)) timers.timerList
    none before (t :: after) timerWalkLimit path
    (fun u member => by
      rw [decide_eq_false_iff_not]
      rintro rfl
      exact outside member)
    (fun u isHead => by
      cases isHead
      exact decide_eq_true rfl)
    (timerWalk_enough path)
  rw [Option.or_none] at search
  refine ⟨_, _, ?_, linkOut_path path⟩
  rw [swTimerStop, search]
  rfl

/-! ### A list in order -/

/-- The first timer expires earlier, or at the same tick and has been inserted
earlier. -/
def Timers.Before (timers : Timers) (left right : TimerAddr) : Prop :=
  timers.expiryTick left < timers.expiryTick right ∨
    timers.expiryTick left = timers.expiryTick right ∧
      timers.inserted left < timers.inserted right

structure Timers.Ordered (timers : Timers) (order : List TimerAddr) : Prop where
  path : Path timers.next timers.timerList order none
  sorted : order.Pairwise timers.Before
  stamped : ∀ t ∈ order, timers.inserted t < timers.insertions
  active : ∀ t ∈ order, timers.active t = true

structure SameTimer (before after : Timers) (t : TimerAddr) : Prop where
  expiryTick : after.expiryTick t = before.expiryTick t
  periodTicks : after.periodTicks t = before.periodTicks t
  callback : after.callback t = before.callback t
  callbackArg : after.callbackArg t = before.callbackArg t
  periodic : after.periodic t = before.periodic t
  active : after.active t = before.active t

theorem SameTimer.refl (timers : Timers) (t : TimerAddr) : SameTimer timers timers t :=
  ⟨rfl, rfl, rfl, rfl, rfl, rfl⟩

theorem SameTimer.trans {first middle last : Timers} (earlier : SameTimer first middle t)
    (later : SameTimer middle last t) : SameTimer first last t where
  expiryTick := later.expiryTick.trans earlier.expiryTick
  periodTicks := later.periodTicks.trans earlier.periodTicks
  callback := later.callback.trans earlier.callback
  callbackArg := later.callbackArg.trans earlier.callbackArg
  periodic := later.periodic.trans earlier.periodic
  active := later.active.trans earlier.active

structure OnlyTimer (before after : Timers) (t : TimerAddr) : Prop where
  fields : ∀ u, u ≠ t → SameTimer before after u
  next : ∀ u, u ≠ t → after.next u = before.next u
  timerList : after.timerList = before.timerList
  tickCount : after.tickCount = before.tickCount
  insertions : after.insertions = before.insertions
  inserted : after.inserted = before.inserted

theorem Timers.Before.le {left right : TimerAddr} (earlier : timers.Before left right) :
    timers.expiryTick left ≤ timers.expiryTick right :=
  earlier.elim Nat.le_of_lt fun same => Nat.le_of_eq same.1

theorem Timers.Before.relinked {filled : Timers} {left right : TimerAddr}
    (earlier : timers.Before left right) (only : OnlyTimer timers filled t)
    (notLeft : left ≠ t) (notRight : right ≠ t) (next : TimerAddr → Option TimerAddr)
    (head : Option TimerAddr) : (filled.relinked next head t).Before left right := by
  unfold Timers.Before Timers.relinked at *
  dsimp only
  rw [Function.update_of_ne notLeft, Function.update_of_ne notRight, only.inserted,
    (only.fields left notLeft).expiryTick,
    (only.fields right notRight).expiryTick]
  exact earlier

/-- The list is acyclic and sorted by expiry. -/
structure Timers.Sorted (timers : Timers) (order : List TimerAddr) : Prop where
  path : Path timers.next timers.timerList order none
  sorted : order.Pairwise fun left right => timers.expiryTick left ≤ timers.expiryTick right

theorem Timers.Ordered.toSorted (ordered : timers.Ordered order) : timers.Sorted order :=
  ⟨ordered.path, ordered.sorted.imp fun earlier => earlier.le⟩

/-- A timer that is not in the list is filled in, and inserted where the list
parts at its expiry. -/
theorem Timers.Sorted.split {filled : Timers} (formed : timers.Sorted order)
    (only : OnlyTimer timers filled t) (new : t ∉ order) :
    ∃ next head front back, insertSorted filled t = some (filled.relinked next head t) ∧
      order = front ++ back ∧ Path next head (front ++ t :: back) none ∧
      (∀ u ∈ front, filled.expiryTick u ≤ filled.expiryTick t) ∧
      ∀ u ∈ back, filled.expiryTick t < filled.expiryTick u := by
  have apart : ∀ u ∈ order, u ≠ t := by
    rintro u member rfl
    exact new member
  obtain ⟨front, back, split, early, late⟩ := exists_split_at formed.sorted (filled.expiryTick t)
  have expiry : ∀ u ∈ front ++ back, filled.expiryTick u = timers.expiryTick u :=
    fun u inside => (only.fields u (apart u (split ▸ inside))).expiryTick
  have filledPath : Path filled.next filled.timerList (front ++ back) none := by
    rw [only.timerList, ← split]
    exact formed.path.congr fun u inside => only.next u (apart u inside)
  have earlier : ∀ u ∈ front, filled.expiryTick u ≤ filled.expiryTick t := by
    intro u inside
    rw [expiry u (List.mem_append_left back inside)]
    exact early u inside
  have later : ∀ u ∈ back, filled.expiryTick t < filled.expiryTick u := by
    intro u inside
    rw [expiry u (List.mem_append_right front inside)]
    exact late u inside
  obtain ⟨next, head, returned, linked⟩ :=
    insertSorted_spec filledPath (by rw [← split]; exact new) earlier later
  exact ⟨next, head, front, back, returned, split, linked, earlier, later⟩

theorem Timers.Sorted.insert {filled : Timers} (formed : timers.Sorted order)
    (only : OnlyTimer timers filled t) (new : t ∉ order) :
    ∃ next head added, insertSorted filled t = some (filled.relinked next head t) ∧
      (filled.relinked next head t).Sorted added ∧ added.erase t = order ∧
      ∀ u, u ∈ added ↔ u = t ∨ u ∈ order := by
  have apart : ∀ u ∈ order, u ≠ t := by
    rintro u member rfl
    exact new member
  obtain ⟨next, head, front, back, returned, split, linked, early, late⟩ :=
    formed.split only new
  refine ⟨next, head, front ++ t :: back, returned, ⟨linked, ?_⟩, ?_, ?_⟩
  · refine pairwise_insert ?_ early fun u inside => Nat.le_of_lt (late u inside)
    rw [← split]
    refine formed.sorted.imp_of_mem fun {u v} inside insideToo earlier => ?_
    change filled.expiryTick u ≤ filled.expiryTick v
    rw [(only.fields u (apart u inside)).expiryTick, (only.fields v (apart v insideToo)).expiryTick]
    exact earlier
  · rw [List.erase_append_right _ (fun inside => new (split ▸ List.mem_append_left back inside)),
      List.erase_cons_head, split]
  · intro u
    rw [split]
    simp only [List.mem_append, List.mem_cons]
    tauto

theorem Timers.Ordered.insert {filled : Timers} (ordered : timers.Ordered order)
    (only : OnlyTimer timers filled t) (new : t ∉ order) (active : filled.active t = true) :
    ∃ next head added, insertSorted filled t = some (filled.relinked next head t) ∧
      (filled.relinked next head t).Ordered added ∧ ∀ u, u ∈ added ↔ u = t ∨ u ∈ order := by
  have apart : ∀ u ∈ order, u ≠ t := by
    rintro u member rfl
    exact new member
  obtain ⟨next, head, front, back, returned, split, linked, early, late⟩ :=
    ordered.toSorted.split only new
  have member : ∀ u, u ∈ order ↔ u ∈ front ∨ u ∈ back := by
    intro u
    rw [split, List.mem_append]
  have others : ∀ u, u ∈ front ++ t :: back → u ≠ t → u ∈ order := by
    intro u inside different
    rw [member]
    simpa [different] using inside
  refine ⟨next, head, front ++ t :: back, returned, ⟨linked, ?_, ?_, ?_⟩, ?_⟩
  · have kept : (front ++ back).Pairwise (filled.relinked next head t).Before := by
      rw [← split]
      exact ordered.sorted.imp_of_mem fun {u v} inside insideToo earlier =>
        earlier.relinked only (apart u inside) (apart v insideToo) next head
    refine pairwise_insert kept ?_ ?_
    · intro u inside
      have inOrder := (member u).mpr (Or.inl inside)
      have earlier := early u inside
      unfold Timers.Before Timers.relinked
      dsimp only
      rw [Function.update_self, Function.update_of_ne (apart u inOrder), only.inserted,
        only.insertions]
      rcases Nat.lt_or_eq_of_le earlier with less | same
      · exact Or.inl less
      · exact Or.inr ⟨same, ordered.stamped u inOrder⟩
    · exact fun u inside => Or.inl (late u inside)
  · intro u inside
    unfold Timers.relinked
    dsimp only
    by_cases same : u = t
    · subst u
      rw [Function.update_self]
      exact Nat.lt_succ_self _
    · rw [Function.update_of_ne same, only.inserted, only.insertions]
      exact Nat.lt_succ_of_lt (ordered.stamped u (others u inside same))
  · intro u inside
    by_cases same : u = t
    · subst u
      exact active
    · exact (only.fields u same).active.trans (ordered.active u (others u inside same))
  · intro u
    rw [member]
    simp only [List.mem_append, List.mem_cons]
    tauto

theorem armTimer_only (timers : Timers) (t : TimerAddr) (ticks : Nat) (periodic : Bool)
    (cb arg : Nat) : OnlyTimer timers (armTimer timers t ticks periodic cb arg) t := by
  refine ⟨fun u different => ?_, fun u different => ?_, rfl, rfl, rfl, rfl⟩
  · constructor <;> simp [armTimer, different]
  · simp [armTimer, different]

theorem Timers.Ordered.stop (ordered : timers.Ordered order) (t : TimerAddr) :
    ∃ next head, swTimerStop timers (some t) = some
        { timers with
          next := next
          timerList := head
          active := if t ∈ order then Function.update timers.active t false else timers.active } ∧
      Path next head (order.erase t) none := by
  by_cases present : t ∈ order
  · obtain ⟨front, back, split⟩ := List.append_of_mem present
    have path := ordered.path
    rw [split] at path
    obtain ⟨next, head, returned, unlinked⟩ := swTimerStop_present path
    have outside : t ∉ front := fun inside =>
      (List.nodup_append.mp path.nodup).2.2 t inside t List.mem_cons_self rfl
    refine ⟨next, head, by rw [returned, if_pos present], ?_⟩
    rw [split, List.erase_append_right _ outside, List.erase_cons_head]
    exact unlinked
  · refine ⟨timers.next, timers.timerList, ?_, ?_⟩
    · rw [swTimerStop_absent ordered.path present, if_neg present]
    · rw [List.erase_of_not_mem present]
      exact ordered.path

end MicrokernelRtos
