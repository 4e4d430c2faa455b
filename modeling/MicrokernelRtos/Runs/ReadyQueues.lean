/-
The ready rings as plain queues, over whole runs of the four operations of
scheduler.c.

A ring stands for the list that is read off from `ready_head` along `next_ready`.
Between two operations the rest of the kernel may write every field that is not a
link, so that the runs cover every use the kernel makes of the rings.
-/

import MicrokernelRtos.Coherence.Boot
import MicrokernelRtos.Library.RoundRobin
import MicrokernelRtos.Library.TransitionSystem

namespace MicrokernelRtos

open Linked Transition RoundRobin

/-- The tasks of a ring, read from `ready_head` along `next_ready`. -/
def Kernel.readyList (kernel : Kernel) (bucket : Bucket) : List Addr :=
  match kernel.readyHead bucket with
  | none => []
  | some head => readRing kernel.nextReady head kernel.walkLimit head

/-- The kernel, with the selections of `scheduler_get_next` so far, each with the
ring it was made from. -/
structure RingRun where
  kernel : Kernel
  selections : List (Bucket × Addr)

inductive RingAction where
  | add (tcb : Addr)
  | remove (tcb : Addr)
  | rebucket (tcb : Addr) (oldBucket newBucket : Bucket)
  | getNext
  | write (core : Core)

def ringStep (s : RingRun) : RingAction → Option RingRun
  | .add tcb =>
      (schedulerAddTask s.kernel (some tcb)).map fun added => { s with kernel := added.2 }
  | .remove tcb =>
      (schedulerRemoveTask s.kernel (some tcb)).map fun removed => { s with kernel := removed }
  | .rebucket tcb oldBucket newBucket =>
      (schedulerRebucketTask s.kernel (some tcb) oldBucket newBucket).map fun moved =>
        { s with kernel := moved }
  | .getNext =>
      (schedulerGetNext s.kernel).map fun chosen =>
        { kernel := chosen.2
          selections := s.selections ++
            ((firstReady s.kernel).map fun ring => (ring.1, chosen.1)).toList }
  | .write core => some { s with kernel := { s.kernel with toCore := core } }

/-- How the kernel may use the rings. -/
def RingAllowed (s : RingRun) : RingAction → Prop
  | .add tcb => tcb < s.kernel.walkLimit ∧ s.kernel.state tcb ≠ .terminated ∧
      ∀ bucket, tcb ∉ s.kernel.readyList bucket
  | .remove tcb => ∀ bucket, tcb ∈ s.kernel.readyList bucket → bucket = s.kernel.prioBucket tcb
  | .rebucket tcb oldBucket _ => tcb < s.kernel.walkLimit ∧ s.kernel.state tcb = .ready ∧
      ∀ bucket, tcb ∈ s.kernel.readyList bucket → bucket = oldBucket
  | .getNext => ∃ bucket, s.kernel.readyList bucket ≠ []
  | .write core => core.config = s.kernel.config

def RingRun.op (s : RingRun) : RingAction → Op Bucket Addr
  | .add tcb => .append (s.kernel.prioBucket tcb) tcb
  | .remove tcb => .delete (s.kernel.prioBucket tcb) tcb
  | .rebucket tcb oldBucket newBucket =>
      if oldBucket = newBucket then .skip else .move oldBucket newBucket tcb
  | .getNext =>
      match firstReady s.kernel with
      | none => .skip
      | some ring => .select ring.1 ring.2
  | .write _ => .skip

/-! ### Well-formed rings -/

/-- The rings are circular lists that share no task, and hold tasks of the pool. -/
structure RingsGood (kernel : Kernel) : Prop where
  lists : kernel.RingsAre kernel.readyList
  bounded : ∀ bucket, ∀ tcb ∈ kernel.readyList bucket, tcb < kernel.walkLimit

variable {kernel result : Kernel} {rings : Bucket → List Addr} {s : RingRun}

theorem readyList_eq (lists : kernel.RingsAre rings)
    (bounded : ∀ bucket, ∀ tcb ∈ rings bucket, tcb < kernel.walkLimit) :
    kernel.readyList = rings := by
  funext bucket
  have ring := lists.family.ring bucket
  unfold Kernel.readyList
  cases headAt : kernel.readyHead bucket with
  | none =>
      have heads := ring.head_eq
      rw [headAt] at heads
      exact (List.head?_eq_none_iff.mp heads.symm).symm
  | some head =>
      rw [headAt] at ring
      exact ring.readRing_eq (length_le_of_bounded ring.distinct (bounded bucket))

theorem ringsGood_of (lists : kernel.RingsAre rings)
    (bounded : ∀ bucket, ∀ tcb ∈ rings bucket, tcb < kernel.walkLimit) :
    RingsGood kernel ∧ kernel.readyList = rings := by
  have same := readyList_eq lists bounded
  exact ⟨⟨same.symm ▸ lists, same.symm ▸ bounded⟩, same⟩

theorem RingsGood.enough (good : RingsGood kernel) (bucket : Bucket) :
    (kernel.readyList bucket).length ≤ kernel.walkLimit :=
  length_le_of_bounded (good.lists.family.ring bucket).distinct (good.bounded bucket)

theorem RingsGood.keeps (good : RingsGood kernel) (config : result.config = kernel.config)
    (lists : result.RingsAre rings)
    (members : ∀ bucket, ∀ tcb ∈ rings bucket,
      tcb < kernel.walkLimit ∨ ∃ old, tcb ∈ kernel.readyList old) :
    RingsGood result ∧ result.readyList = rings := by
  apply ringsGood_of lists
  intro bucket tcb member
  have limit : result.walkLimit = kernel.walkLimit := congrArg Config.poolSize config
  rw [limit]
  rcases members bucket tcb member with below | ⟨old, listed⟩
  · exact below
  · exact good.bounded old tcb listed

/-! ### The operations -/

/-- An action returns, keeps the rings well formed and acts on the queues. -/
def Refines (s : RingRun) (action : RingAction) : Prop :=
  ∃ after, ringStep s action = some after ∧ RingsGood after.kernel ∧
    Acts s.kernel.readyList (s.op action) after.kernel.readyList ∧
    after.selections = s.selections ++ (s.op action).turn

theorem add_refines {tcb : Addr} (good : RingsGood s.kernel)
    (allowed : RingAllowed s (.add tcb)) : Refines s (.add tcb) := by
  obtain ⟨below, alive, absent⟩ := allowed
  obtain ⟨added, returned, config, lists⟩ :=
    schedulerAddTask_lists good.lists (good.enough _) absent alive
  obtain ⟨kept, same⟩ := good.keeps config lists (by
    intro bucket member inside
    by_cases here : bucket = s.kernel.prioBucket tcb
    · rw [here, Function.update_self] at inside
      rcases List.mem_append.mp inside with old | new
      · exact Or.inr ⟨_, old⟩
      · rw [List.mem_singleton.mp new]
        exact Or.inl below
    · rw [Function.update_of_ne here] at inside
      exact Or.inr ⟨_, inside⟩)
  refine ⟨{ s with kernel := added }, ?_, kept, ?_, ?_⟩
  · simp only [ringStep, returned, Option.map_some]
  · simp only [RingRun.op]
    rw [same]
    exact Acts.append absent
  · simp only [RingRun.op, Op.turn, List.append_nil]

theorem remove_refines {tcb : Addr} (good : RingsGood s.kernel) : Refines s (.remove tcb) := by
  obtain ⟨removed, returned, frame, lists⟩ :=
    @schedulerRemoveTask_spec s.kernel _ tcb good.lists (good.enough _)
  have config : removed.config = s.kernel.config := by rw [frame.core]
  obtain ⟨kept, same⟩ := good.keeps config lists (by
    intro bucket member inside
    by_cases here : bucket = s.kernel.prioBucket tcb
    · rw [here, Function.update_self] at inside
      exact Or.inr ⟨_, List.mem_of_mem_erase inside⟩
    · rw [Function.update_of_ne here] at inside
      exact Or.inr ⟨_, inside⟩)
  refine ⟨{ s with kernel := removed }, ?_, kept, ?_, ?_⟩
  · simp only [ringStep, returned, Option.map_some]
  · simp only [RingRun.op]
    rw [same]
    exact Acts.delete
  · simp only [RingRun.op, Op.turn, List.append_nil]

theorem rebucket_refines {tcb : Addr} {oldBucket newBucket : Bucket} (good : RingsGood s.kernel)
    (allowed : RingAllowed s (.rebucket tcb oldBucket newBucket)) :
    Refines s (.rebucket tcb oldBucket newBucket) := by
  obtain ⟨below, ready, place⟩ := allowed
  by_cases same : oldBucket = newBucket
  · refine ⟨s, ?_, good, ?_, ?_⟩
    · simp only [ringStep, schedulerRebucketTask, if_pos same, Option.map_some]
    · simp only [RingRun.op, if_pos same]
      exact Acts.skip
    · simp only [RingRun.op, if_pos same, Op.turn, List.append_nil]
  · have elsewhere : ∀ bucket, bucket ≠ oldBucket → tcb ∉ s.kernel.readyList bucket :=
      fun bucket different member => different (place bucket member)
    obtain ⟨moved, returned, config, lists⟩ :=
      schedulerRebucketTask_lists good.lists good.enough ready elsewhere same
    obtain ⟨kept, read⟩ := good.keeps config lists (by
      intro bucket member inside
      by_cases atNew : bucket = newBucket
      · rw [atNew, Function.update_self] at inside
        rcases List.mem_append.mp inside with old | new
        · exact Or.inr ⟨_, old⟩
        · rw [List.mem_singleton.mp new]
          exact Or.inl below
      · rw [Function.update_of_ne atNew] at inside
        by_cases atOld : bucket = oldBucket
        · rw [atOld, Function.update_self] at inside
          exact Or.inr ⟨_, List.mem_of_mem_erase inside⟩
        · rw [Function.update_of_ne atOld] at inside
          exact Or.inr ⟨_, inside⟩)
    refine ⟨{ s with kernel := moved }, ?_, kept, ?_, ?_⟩
    · simp only [ringStep, returned, Option.map_some]
    · simp only [RingRun.op, if_neg same]
      rw [read]
      exact Acts.move elsewhere same
    · simp only [RingRun.op, if_neg same, Op.turn, List.append_nil]

theorem firstReady_of_readyList {bucket : Bucket} {sel : Addr} {rest : List Addr}
    (lists : kernel.RingsAre rings) (first : rings bucket = sel :: rest)
    (lowest : ∀ lower, lower < bucket → rings lower = []) :
    firstReady kernel = some (bucket, sel) := by
  have headAt : kernel.readyHead bucket = some sel := by
    rw [(lists.family.ring bucket).head_eq, first]
    rfl
  cases found : firstReady kernel with
  | none =>
      have skipped := List.findSome?_eq_none_iff.mp found bucket (List.mem_finRange bucket)
      rw [headAt] at skipped
      cases skipped
  | some choice =>
      obtain ⟨chosen, head⟩ := choice
      obtain ⟨chosenHead, below⟩ := firstReady_eq_some found
      rcases Nat.lt_trichotomy chosen bucket with earlier | same | later
      · have empty := (lists.family.ring chosen).anchored (lowest chosen earlier)
        rw [chosenHead] at empty
        cases empty
      · have isBucket : chosen = bucket := Fin.ext same
        subst isBucket
        rw [headAt] at chosenHead
        rw [Option.some.inj chosenHead]
      · rw [below bucket later] at headAt
        cases headAt

theorem getNext_refines (good : RingsGood s.kernel) (allowed : RingAllowed s .getNext) :
    Refines s .getNext := by
  obtain ⟨bucket, sel, rest, selected, first, lowest, returned, frame, lists⟩ :=
    schedulerGetNext_spec good.lists allowed
  have found := firstReady_of_readyList good.lists first lowest
  have config : selected.config = s.kernel.config := by
    obtain ⟨state, counter, fields⟩ := select_core s.kernel sel
    rw [frame.core, fields]
  obtain ⟨kept, same⟩ := good.keeps config lists (by
    intro position member inside
    by_cases here : position = bucket
    · rw [here, Function.update_self] at inside
      refine Or.inr ⟨bucket, ?_⟩
      rw [first]
      exact (List.perm_append_singleton sel rest).mem_iff.mp inside
    · rw [Function.update_of_ne here] at inside
      exact Or.inr ⟨_, inside⟩)
  refine ⟨_, by simp only [ringStep, returned, Option.map_some]; rfl, kept, ?_, ?_⟩
  · simp only [RingRun.op, found]
    rw [same]
    exact Acts.select first lowest
  · simp only [RingRun.op, found, Op.turn, Option.map_some, Option.toList_some]

theorem RingsGood.refines {action : RingAction} (good : RingsGood s.kernel)
    (allowed : RingAllowed s action) : Refines s action := by
  cases action with
  | add tcb => exact add_refines good allowed
  | remove tcb => exact remove_refines good
  | rebucket tcb oldBucket newBucket => exact rebucket_refines good allowed
  | getNext => exact getNext_refines good allowed
  | write core =>
      have lists : RingsGood { s.kernel with toCore := core } ∧ _ :=
        @RingsGood.keeps s.kernel { s.kernel with toCore := core } _ good allowed
          ⟨good.lists.family, good.lists.fresh⟩ fun bucket _ inside => Or.inr ⟨bucket, inside⟩
      refine ⟨{ s with kernel := { s.kernel with toCore := core } }, rfl, lists.1, ?_, ?_⟩
      · simp only [RingRun.op]
        rw [lists.2]
        exact Acts.skip
      · simp only [RingRun.op, Op.turn, List.append_nil]

/-! ### Whole runs -/

def RingBoot (s : RingRun) : Prop :=
  ∃ kernel, s = ⟨{ schedulerInit kernel with addCalls := [] }, []⟩

theorem ringsGood_boot (boot : RingBoot s) : RingsGood s.kernel := by
  obtain ⟨kernel, rfl⟩ := boot
  have empty : ({ schedulerInit kernel with addCalls := [] } : Kernel).RingsAre fun _ => [] := by
    refine ⟨⟨fun _ => isRing_empty _, fun _ _ _ member => absurd member List.not_mem_nil⟩, ?_⟩
    exact fun call member => absurd member List.not_mem_nil
  exact (ringsGood_of empty fun _ _ member => absurd member List.not_mem_nil).1

/-- A run in which the rings are well formed at the start keeps them so. -/
theorem ringsGood_of_reachable {start : RingRun → Prop} {allowed : RingRun → RingAction → Prop}
    (begins : ∀ s, start s → RingsGood s.kernel)
    (permitted : ∀ s action, allowed s action → RingAllowed s action)
    (reached : Reachable start ringStep allowed s) : RingsGood s.kernel := by
  refine reached.invariant (fun s => RingsGood s.kernel) begins ?_
  intro s action after good use taken
  obtain ⟨result, returned, kept, _⟩ := good.refines (permitted s action use)
  rw [taken] at returned
  cases returned
  exact kept

/-- In every reachable state the rings are circular lists that share no task, and
every operation returns and acts on the lists as on plain queues. -/
theorem rings_refine_queues (reached : Reachable RingBoot ringStep RingAllowed s) :
    RingFamily s.kernel.nextReady s.kernel.readyHead s.kernel.readyList ∧
      ∀ action, RingAllowed s action → ∃ after, ringStep s action = some after ∧
        Acts s.kernel.readyList (s.op action) after.kernel.readyList ∧
        after.selections = s.selections ++ (s.op action).turn := by
  have good := ringsGood_of_reachable (fun _ => ringsGood_boot) (fun _ _ use => use) reached
  refine ⟨good.lists.family, fun action allowed => ?_⟩
  obtain ⟨after, returned, _, acts, turns⟩ := good.refines allowed
  exact ⟨after, returned, acts, turns⟩

def ringCheck (s : RingRun) : RingAction → Bool
  | .add tcb => decide (tcb < s.kernel.walkLimit ∧ s.kernel.state tcb ≠ .terminated ∧
      ∀ bucket, tcb ∉ s.kernel.readyList bucket)
  | .remove tcb =>
      decide (∀ bucket, tcb ∈ s.kernel.readyList bucket → bucket = s.kernel.prioBucket tcb)
  | .rebucket tcb oldBucket _ => decide (tcb < s.kernel.walkLimit ∧ s.kernel.state tcb = .ready ∧
      ∀ bucket, tcb ∈ s.kernel.readyList bucket → bucket = oldBucket)
  | .getNext => decide (∃ bucket, s.kernel.readyList bucket ≠ [])
  | .write _ => false

theorem ringAllowed_of_check (s : RingRun) (action : RingAction)
    (checked : ringCheck s action = true) : RingAllowed s action := by
  cases action with
  | write _ => cases checked
  | _ => simpa [ringCheck, RingAllowed] using checked

theorem rings_refine_queues_after_moves :
    ∃ s, s.kernel.readyList firstBucket = [3, 1] ∧ s.kernel.readyList lastBucket = [2] ∧
      s.selections = [(firstBucket, 1)] ∧
      RingFamily s.kernel.nextReady s.kernel.readyHead s.kernel.readyList ∧
      ∃ after, ringStep s .getNext = some after ∧
        after.selections = [(firstBucket, 1), (firstBucket, 3)] := by
  obtain ⟨s, reached, found⟩ :=
    @exists_reachable_of_run RingRun RingAction RingBoot ringStep RingAllowed ringCheck
      (fun s => decide (s.kernel.readyList firstBucket = [3, 1] ∧
        s.kernel.readyList lastBucket = [2] ∧ s.selections = [(firstBucket, 1)] ∧
        firstReady s.kernel = some (firstBucket, 3)))
      ringAllowed_of_check
      [.add 1, .add 2, .add 3, .getNext, .rebucket 2 firstBucket lastBucket]
      ⟨{ schedulerInit resetKernel with addCalls := [] }, []⟩ ⟨resetKernel, rfl⟩
      (by decide +kernel)
  obtain ⟨low, high, selected, first⟩ := of_decide_eq_true found
  obtain ⟨family, acts⟩ := rings_refine_queues reached
  obtain ⟨after, returned, _, turns⟩ := acts .getNext ⟨firstBucket, by rw [low]; simp⟩
  refine ⟨s, low, high, selected, family, after, returned, ?_⟩
  rw [turns, selected]
  simp only [RingRun.op, first, Op.turn]
  rfl

/-! ### No overtaking -/

def RingAction.Spares (t : Addr) : RingAction → Prop
  | .add tcb => tcb ≠ t
  | .remove tcb => tcb ≠ t
  | .rebucket tcb _ _ => tcb ≠ t
  | .getNext => True
  | .write _ => True

instance (t : Addr) (action : RingAction) : Decidable (action.Spares t) :=
  match action with
  | .add tcb => inferInstanceAs (Decidable (tcb ≠ t))
  | .remove tcb => inferInstanceAs (Decidable (tcb ≠ t))
  | .rebucket tcb _ _ => inferInstanceAs (Decidable (tcb ≠ t))
  | .getNext => isTrue trivial
  | .write _ => isTrue trivial

theorem RingAction.Spares.op {action : RingAction} {t : Addr} (spares : action.Spares t) :
    (s.op action).Spares t := by
  cases action with
  | add tcb => exact spares
  | remove tcb => exact spares
  | rebucket tcb oldBucket newBucket =>
      simp only [RingRun.op]
      split
      · trivial
      · exact spares
  | getNext =>
      simp only [RingRun.op]
      split <;> trivial
  | write core => trivial

/-- In every run from well-formed rings with a task `t` in ring `p`, in which the
other tasks come, leave and move as they like, `t` stays there; between two
selections of `t` no other task is selected from ring `p` twice; and before its
first selection there are no more selections from ring `p` than there were tasks
in front of it. -/
theorem noOvertaking_of_reachable {kernel : Kernel} {p : Bucket} {t : Addr}
    {front back : List Addr}
    (family : RingFamily kernel.nextReady kernel.readyHead kernel.readyList)
    (bounded : ∀ bucket, ∀ tcb ∈ kernel.readyList bucket, tcb < kernel.walkLimit)
    (unrecorded : kernel.addCalls = []) (place : kernel.readyList p = front ++ t :: back)
    (reached : Reachable (fun s => s = ⟨kernel, []⟩) ringStep
      (fun s action => RingAllowed s action ∧ action.Spares t) s) :
    t ∈ s.kernel.readyList p ∧ (∀ bucket, (bucket, t) ∈ s.selections → bucket = p) ∧
      (∀ earlier middle later, s.selections = earlier ++ (p, t) :: (middle ++ later) →
        (p, t) ∉ middle → ∀ other, middle.count (p, other) ≤ 1) ∧
      ∀ first later, s.selections = first ++ later → (p, t) ∉ first →
        first.countP (fun selection => decide (selection.1 = p)) ≤ front.length := by
  have fresh : ∀ call ∈ kernel.addCalls, call.Fresh := by
    rw [unrecorded]
    exact fun call member => absurd member List.not_mem_nil
  have begins : RingsGood kernel := ⟨⟨family, fresh⟩, bounded⟩
  have invariant := reached.invariant (fun s => RingsGood s.kernel ∧
    Fair p t front.length s.kernel.readyList s.selections ∧
    ∀ bucket, (bucket, t) ∈ s.selections → bucket = p) ?_ ?_
  · obtain ⟨_, fair, own⟩ := invariant
    exact ⟨fair.listed, own, fair.once, fair.waits⟩
  · intro s start
    rw [start]
    exact ⟨begins, fair_start place (family.ring p).distinct,
      fun bucket member => absurd member List.not_mem_nil⟩
  · intro s action after holds allowed taken
    obtain ⟨good, fair, own⟩ := holds
    obtain ⟨result, returned, kept, acts, turns⟩ := good.refines allowed.1
    rw [taken] at returned
    cases returned
    rw [turns]
    refine ⟨kept, fair.step acts allowed.2.op, ?_⟩
    intro bucket member
    rcases List.mem_append.mp member with earlier | last
    · exact own bucket earlier
    · exact good.lists.family.apart bucket p t (acts.mem_of_turn last) fair.listed

def threeReady : Kernel :=
  { resetKernel with
    nextReady := fun t =>
      if t = 1 then some 2 else if t = 2 then some 3 else if t = 3 then some 1 else none
    readyHead := Function.update (fun _ => none) firstBucket (some 1) }

theorem threeReady_family :
    RingFamily threeReady.nextReady threeReady.readyHead threeReady.readyList := by
  have ring : IsRing threeReady.nextReady (some 1) [1, 2, 3] :=
    ⟨⟨rfl, rfl, rfl, rfl⟩, fun empty => by simp at empty, by decide⟩
  have empty := isRing_empty threeReady.nextReady
  have family : RingFamily threeReady.nextReady (fun _ : Bucket => none) fun _ => [] :=
    ⟨fun _ => empty, fun _ _ _ member => absurd member List.not_mem_nil⟩
  have placed := family.replace firstBucket ring (fun _ _ _ => rfl)
    fun _ _ _ _ => List.not_mem_nil
  have lists : threeReady.RingsAre (Function.update (fun _ => []) firstBucket [1, 2, 3]) :=
    ⟨placed, fun call member => absurd member List.not_mem_nil⟩
  have bounded : ∀ bucket : Bucket, ∀ tcb ∈
      Function.update (fun _ => []) firstBucket [1, 2, 3] bucket, tcb < threeReady.walkLimit := by
    decide
  rw [readyList_eq lists bounded]
  exact placed

theorem noOvertaking_with_three_tasks :
    ∃ s : RingRun, s.selections = [(firstBucket, 1), (firstBucket, 2), (firstBucket, 3)] ∧
      2 ∈ s.kernel.readyList firstBucket ∧
      ∀ first later, s.selections = first ++ later → (firstBucket, 2) ∉ first →
        first.countP (fun selection => decide (selection.1 = firstBucket)) ≤ 1 := by
  obtain ⟨s, reached, found⟩ :=
    @exists_reachable_of_run RingRun RingAction (fun s => s = ⟨threeReady, []⟩) ringStep
      (fun s action => RingAllowed s action ∧ action.Spares 2)
      (fun s action => ringCheck s action && decide (action.Spares 2))
      (fun s => decide (s.selections = [(firstBucket, 1), (firstBucket, 2), (firstBucket, 3)]))
      (fun s action checked =>
        ⟨ringAllowed_of_check s action (Bool.and_eq_true_iff.mp checked).1,
          of_decide_eq_true (Bool.and_eq_true_iff.mp checked).2⟩)
      [.getNext, .remove 1, .add 1, .getNext, .getNext] ⟨threeReady, []⟩ rfl (by decide +kernel)
  obtain ⟨listed, _, _, waits⟩ := @noOvertaking_of_reachable s threeReady firstBucket 2 [1] [3]
    threeReady_family (by decide +kernel) rfl (by decide +kernel) reached
  exact ⟨s, of_decide_eq_true found, listed, waits⟩

end MicrokernelRtos
