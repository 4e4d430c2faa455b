/-
When the idle task is selected.

Idle is a task of the last ring like any other there, so that it takes its turn
with the tasks of the priorities from 224 on.  Where no task has such a priority
it is alone in its ring, and is selected only if every other ring is empty.
-/

import MicrokernelRtos.Runs.Atomic

namespace MicrokernelRtos

open Linked Transition

variable {system after : System} {action : Action}

/-- Creations with a priority of 8 bits, delays, ticks and context switches. -/
def IdleAction : Action → Prop
  | .create _ priority _ _ _ => priority ≤ priorityMax
  | .call (.delay _) => True
  | .sysTick => True
  | .getNext => True
  | _ => False

/-- Such an action, and no task of the last ring is created. -/
def AboveIdle (action : Action) : Prop :=
  IdleAction action ∧ ∀ taskFunc priority stackSize tcbBlock stackBlock,
    action = .create taskFunc priority stackSize tcbBlock stackBlock → priority < 224

/-- If `scheduler_get_next` returns idle, no other live task is READY then. -/
def IdleRunsAlone (system : System) : Prop :=
  ∀ sel result, schedulerGetNext system.kernel = some (sel, result) →
    some sel = system.kernel.idleTcb → ∀ t ∈ system.live, result.state t ≠ .ready

/-- Idle is the first of the tasks of the last ring, and not the only one, and
every other ring is empty. -/
def IdleSharesRing (kernel : Kernel) : Prop :=
  (∀ bucket, bucket < lastBucket → kernel.readyHead bucket = none) ∧
    ∃ idle, kernel.idleTcb = some idle ∧ kernel.readyHead lastBucket = some idle ∧
      kernel.nextReady idle ≠ some idle

theorem IdleAction.keepsBucket (isAction : IdleAction action) (system : System) :
    UnlockKeepsBucket system action := by
  cases action with
  | call call =>
      cases call with
      | delay ticks => exact fun _ _ _ => trivial
      | lock m timeoutTicks => cases isAction
      | unlock m => cases isAction
      | wait sem timeoutTicks => cases isAction
      | post sem => cases isAction
      | send q msg timeoutTicks => cases isAction
      | recv q timeoutTicks => cases isAction
  | create taskFunc priority stackSize tcbBlock stackBlock => trivial
  | delete tcb => trivial
  | yield => trivial
  | sysTick => trivial
  | getNext => trivial
  | dispatch t => trivial

/-! ### One selection -/

theorem lt_lastBucket {bucket : Bucket} (different : bucket ≠ lastBucket) :
    bucket < lastBucket := by
  have notSeven : bucket.val ≠ 7 := fun same => different (Fin.ext same)
  have below := bucket.isLt
  exact Fin.lt_def.mpr (show bucket.val < 7 by omega)

theorem RingShape.ready_iff {kernel : Kernel} {rings : Bucket → List Addr}
    (shape : RingShape kernel.toCore rings) {t sel : Addr} (live : t ∈ kernel.taskRegistry)
    (other : t ≠ sel) :
    (dispatch (preemptCurrent kernel) sel).state t = .ready ↔ kernel.state t ≠ .blocked := by
  have kept : (dispatch (preemptCurrent kernel) sel).state t = (preemptCurrent kernel).state t :=
    Function.update_of_ne other _ _
  rw [kept, preemptCurrent_state]
  rcases shape.live t live with ready | running | blocked
  · simp [ready]
  · simp [running, shape.running t live running]
  · simp [blocked]

theorem RingCoherent.idleSharesRing_iff {kernel : Kernel} {rings : Bucket → List Addr}
    (coherent : RingCoherent kernel rings) :
    IdleSharesRing kernel ↔ ∃ idle t others, kernel.idleTcb = some idle ∧
      rings lastBucket = idle :: t :: others ∧
      ∀ bucket, bucket < lastBucket → rings bucket = [] := by
  have headIs : ∀ bucket, kernel.readyHead bucket = (rings bucket).head? :=
    fun bucket => (coherent.lists.family.ring bucket).head_eq
  have ring := coherent.lists.family.ring lastBucket
  constructor
  · rintro ⟨none, idle, isIdle, headAt, shares⟩
    have empty : ∀ bucket, bucket < lastBucket → rings bucket = [] := by
      intro bucket below
      exact List.head?_eq_none_iff.mp ((headIs bucket).symm.trans (none bucket below))
    rw [headAt] at ring
    obtain ⟨rest, split, _⟩ := ring_split ring
    rw [split] at ring
    cases rest with
    | nil => exact absurd (ring.next_eq_self_iff.mpr rfl) shares
    | cons t others => exact ⟨idle, t, others, isIdle, split, empty⟩
  · rintro ⟨idle, t, others, isIdle, split, empty⟩
    have headAt : kernel.readyHead lastBucket = some idle := by
      rw [headIs, split]
      rfl
    rw [headAt, split] at ring
    refine ⟨fun bucket below => ?_, idle, isIdle, headAt, fun alone => ?_⟩
    · rw [headIs, empty bucket below]
      rfl
    · cases ring.next_eq_self_iff.mp alone

theorem SystemCoherent.beside_idle (holds : SystemCoherent system) {rings : Bucket → List Addr}
    (coherent : RingCoherent system.kernel rings) {idle t : Addr} {others : List Addr}
    (isIdle : system.kernel.idleTcb = some idle)
    (split : rings lastBucket = idle :: t :: others) :
    t ∈ system.live ∧ t ≠ idle ∧ system.kernel.prioBucket t = lastBucket ∧
      system.kernel.state t ≠ .blocked := by
  have distinct := (coherent.lists.family.ring lastBucket).distinct
  rw [split] at distinct
  have other : t ≠ idle := by
    rintro rfl
    exact (List.nodup_cons.mp distinct).1 List.mem_cons_self
  obtain ⟨registered, bucket, awake⟩ :=
    (coherent.shape.member lastBucket t).mp (by rw [split]; simp)
  have notIdle : ¬ some t = system.kernel.idleTcb := fun isIdleToo =>
    other (Option.some.inj (isIdleToo.trans isIdle))
  exact ⟨((holds.registry t).mp registered).resolve_right notIdle, other, bucket, awake⟩

/-- Idle is selected although another task is READY exactly if it shares its ring,
stands first in it, and no other ring has a task. -/
theorem SystemCoherent.idleRunsAlone_iff (holds : SystemCoherent system) :
    IdleRunsAlone system ↔ ¬ IdleSharesRing system.kernel := by
  obtain ⟨rings, coherent⟩ := holds.coherent.rings
  obtain ⟨sel, rest, result, returned, _, _, first, empty, _⟩ := schedulerGetNext_rings coherent
  have isReady : ∀ t ∈ system.live, t ≠ sel →
      (result.state t = .ready ↔ system.kernel.state t ≠ .blocked) := by
    intro t live other
    rw [(schedulerGetNext_onlyRings returned).core]
    exact coherent.shape.ready_iff ((holds.registry t).mpr (Or.inl live)) other
  rw [coherent.idleSharesRing_iff]
  constructor
  · rintro alone ⟨idle, t, others, isIdle, split, none⟩
    have isLast : system.kernel.prioBucket sel = lastBucket := by
      by_contra different
      rw [none _ (lt_lastBucket different)] at first
      cases first
    rw [isLast, split] at first
    have same : idle = sel := (List.cons.inj first).1
    subst same
    obtain ⟨live, other, _, awake⟩ := holds.beside_idle coherent isIdle split
    exact alone idle result returned isIdle.symm t live ((isReady t live other).mpr awake)
  · intro notShared chosen other selected chosenIdle t live ready
    rw [returned] at selected
    cases selected
    have notIdle : t ≠ sel := by
      rintro rfl
      exact holds.idleApart t live chosenIdle
    obtain ⟨idle, _, isIdle, _, isLast⟩ := coherent.shape.idle
    rw [isIdle] at chosenIdle
    cases chosenIdle
    rw [isLast] at first empty
    have inRing : t ∈ rings (system.kernel.prioBucket t) :=
      (coherent.shape.member _ t).mpr
        ⟨(holds.registry t).mpr (Or.inl live), rfl, (isReady t live notIdle).mp ready⟩
    have sameRing : system.kernel.prioBucket t = lastBucket := by
      by_contra different
      rw [empty _ (lt_lastBucket different)] at inRing
      cases inRing
    rw [sameRing, first] at inRing
    cases rest with
    | nil => exact notIdle (List.mem_singleton.mp inRing)
    | cons next others => exact notShared ⟨sel, next, others, isIdle, first, empty⟩

/-! ### Runs -/

def NoneBesideIdle (system : System) : Prop :=
  ∀ t ∈ system.live, system.kernel.prioBucket t ≠ lastBucket

theorem prioBucket_ne_last {priority : Nat} (below : priority < 224) :
    prioBucket priority ≠ lastBucket := by
  intro isLast
  have value := congrArg Fin.val isLast
  unfold prioBucket at value
  rw [Nat.shiftRight_eq_div_pow] at value
  have small : priority / 2 ^ 5 < 7 := by omega
  rw [dif_pos (by omega)] at value
  change priority / 2 ^ 5 = 7 at value
  omega

theorem taskDelay_bucket {kernel result : Kernel} {ticks : Nat} {outcome : Outcome}
    (returned : taskDelay kernel ticks = some (outcome, result)) :
    result.prioBucket = kernel.prioBucket := by
  unfold taskDelay at returned
  split at returned
  · cases returned
    rfl
  · unfold rtosBlockCurrent at returned
    split at returned
    · cases returned
      rfl
    · obtain ⟨blocked, block, same⟩ := Option.map_eq_some_iff.mp returned
      cases same
      rw [(blockRegion_onlyRings block).core]
      rfl

theorem step_noneBesideIdle (holds : NoneBesideIdle system) (allowed : AboveIdle action)
    (taken : step system action = some after) : NoneBesideIdle after := by
  cases step_moves taken with
  | stays => exact holds
  | @creates _ tcb priority _ _ added fresh addition =>
      have frame := schedulerAddTask_onlyRings (Function.update_self _ _ _) addition
      intro t member
      change added.prioBucket t ≠ lastBucket
      rw [frame.core]
      change Function.update system.kernel.prioBucket tcb (prioBucket priority) t ≠ lastBucket
      by_cases same : t = tcb
      · rw [same, Function.update_self]
        exact prioBucket_ne_last (allowed.2 _ _ _ _ _ rfl)
      · rw [Function.update_of_ne same]
        exact holds t ((List.mem_cons.mp member).resolve_left same)
  | @calls call outcome result can returned =>
      cases call with
      | delay ticks =>
          intro t member
          change result.prioBucket t ≠ lastBucket
          rw [taskDelay_bucket returned]
          exact holds t member
      | lock m timeoutTicks => cases allowed.1
      | unlock m => cases allowed.1
      | wait sem timeoutTicks => cases allowed.1
      | post sem => cases allowed.1
      | send q msg timeoutTicks => cases allowed.1
      | recv q timeoutTicks => cases allowed.1
  | @ticks ticked tick =>
      obtain ⟨woken, wakes, core⟩ := sysTickHandler_core tick
      intro t member
      change ticked.prioBucket t ≠ lastBucket
      rw [core, wakes.fields]
      exact holds t member
  | @selects sel next returned =>
      obtain ⟨state, counter, fields⟩ := select_core system.kernel sel
      intro t member
      change next.prioBucket t ≠ lastBucket
      rw [(schedulerGetNext_onlyRings returned).core, fields]
      exact holds t member
  | deletes member notIdle notCurrent detachment removal => cases allowed.1
  | yields => cases allowed.1
  | dispatches member awake => cases allowed.1

theorem Reachable.noneBesideIdle
    (reached : Reachable Started step (fun _ a => AboveIdle a) system) :
    NoneBesideIdle system := by
  refine Transition.Reachable.invariant NoneBesideIdle ?_
    (fun _ _ _ holds allowed taken => step_noneBesideIdle holds allowed taken) reached
  rintro s ⟨_, empty⟩ t member
  rw [empty] at member
  cases member

theorem SystemCoherent.not_shares (holds : SystemCoherent system) (none : NoneBesideIdle system) :
    ¬ IdleSharesRing system.kernel := by
  obtain ⟨rings, coherent⟩ := holds.coherent.rings
  rw [coherent.idleSharesRing_iff]
  rintro ⟨idle, t, others, isIdle, split, _⟩
  obtain ⟨live, _, bucket, _⟩ := holds.beside_idle coherent isIdle split
  exact none t live bucket

/-- In every run without a task of a priority from 224 on idle is selected only if
no other task is READY.  In any run it is selected beside a READY task exactly if
it stands first in a ring that it shares, and no other ring has a task. -/
theorem idleRunsAlone_without_low_priorities (system : System) :
    (Reachable Started step (fun _ a => AboveIdle a) system → IdleRunsAlone system) ∧
      (Reachable Started step (fun _ a => IdleAction a) system →
        (IdleRunsAlone system ↔ ¬ IdleSharesRing system.kernel)) := by
  constructor
  · intro reached
    have holds : SystemCoherent system :=
      Reachable.systemCoherent (fun s _ allowed => allowed.1.keepsBucket s) reached
    exact holds.idleRunsAlone_iff.mpr (holds.not_shares (Reachable.noneBesideIdle reached))
  · intro reached
    have holds : SystemCoherent system :=
      Reachable.systemCoherent (fun s _ allowed => allowed.keepsBucket s) reached
    exact holds.idleRunsAlone_iff

def idleCheck (limit : Nat) : Action → Bool
  | .create _ priority _ _ _ => decide (priority < limit)
  | .call (.delay _) => true
  | .sysTick => true
  | .getNext => true
  | _ => false

theorem idleAction_of_check {limit : Nat} (within : limit ≤ priorityMax + 1)
    (checked : idleCheck limit action = true) : IdleAction action := by
  unfold idleCheck at checked
  split at checked
  · have below := of_decide_eq_true checked
    exact Nat.le_of_lt_succ (Nat.lt_of_lt_of_le below within)
  · trivial
  · trivial
  · trivial
  · cases checked

theorem aboveIdle_of_check (checked : idleCheck 224 action = true) : AboveIdle action := by
  refine ⟨idleAction_of_check (by decide) checked, ?_⟩
  rintro taskFunc priority stackSize tcbBlock stackBlock rfl
  exact of_decide_eq_true checked

theorem idleRunsAlone_while_delayed :
    ∃ system, Reachable Started step (fun _ a => AboveIdle a) system ∧ system.live = [1] ∧
      system.kernel.state 1 = .blocked ∧ IdleRunsAlone system := by
  obtain ⟨s, reached, found⟩ :=
    @exists_reachable_of_run System Action Started step (fun _ a => AboveIdle a)
      (fun _ a => idleCheck 224 a)
      (fun s => decide (s.live = [1] ∧ s.kernel.state 1 = .blocked))
      (fun _ _ checked => aboveIdle_of_check checked)
      [.create (some 0) 223 256 (some 1) (some 0), .getNext, .call (.delay 5), .getNext, .sysTick]
      startedSystem started_startedSystem (by decide +kernel)
  obtain ⟨live, blocked⟩ := of_decide_eq_true found
  exact ⟨s, reached, live, blocked, (idleRunsAlone_without_low_priorities s).1 reached⟩

/-- With one task of priority 224 the first selection is idle. -/
theorem not_idleRunsAlone :
    ¬ ∀ system, Reachable Started step (fun _ a => IdleAction a) system →
      IdleRunsAlone system := by
  intro always
  obtain ⟨s, reached, found⟩ :=
    @exists_reachable_of_run System Action Started step (fun _ a => IdleAction a)
      (fun _ a => idleCheck 256 a)
      (fun s => (schedulerGetNext s.kernel).any fun (next : Addr × Kernel) =>
        decide (some next.1 = s.kernel.idleTcb ∧ 1 ∈ s.live ∧ next.2.state 1 = .ready))
      (fun _ _ checked => idleAction_of_check (by decide) checked)
      [.create (some 0) 224 256 (some 1) (some 0)] startedSystem started_startedSystem
      (by decide +kernel)
  obtain ⟨⟨sel, result⟩, returned, facts⟩ := (Option.any_eq_true _ _).mp found
  obtain ⟨isIdle, live, ready⟩ := of_decide_eq_true facts
  exact always s reached sel result returned isIdle 1 live ready

end MicrokernelRtos
