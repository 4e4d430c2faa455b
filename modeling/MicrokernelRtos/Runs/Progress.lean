/-
Wakeups that have still to be used.

A post, a send and a receive leave one unit more for the waiters of a list, and
pop the first of them.  As long as nobody deletes a popped task that is needed, a
list with waiters has at least as many popped tasks as the object has units,
whatever other tasks take in between and however often the popped ones wait
again.
-/

import Mathlib.Data.List.Count
import MicrokernelRtos.Runs.Passes

namespace MicrokernelRtos

open Linked Transition

variable {system : System} {s after : PassState} {self t : Addr} {call : Call}
variable {kernel result : Kernel} {list : WaitId}

/-! ### Calls and records -/

/-- A BLOCKED task is in the wait loop of its call; a popped task is awake, has
not timed out, and is in the call that put it into the list. -/
structure PassCoherent (s : PassState) : Prop where
  system : SystemCoherent s.system
  plain : ∀ t call, s.calls t = some call → call.isMutex = false
  asleep : ∀ t ∈ s.live, s.kernel.state t = .blocked → ∃ call, s.calls t = some call ∧
    s.kernel.blockReason t = call.reason ∧ s.kernel.blockObject t = call.object ∧
    s.kernel.blockWakeStatus t = .ok
  popped : ∀ t list, s.popped t = some list → t ∈ s.live ∧ s.kernel.state t ≠ .blocked ∧
    s.kernel.blockWakeStatus t = .ok ∧ ∃ call, s.calls t = some call ∧ call.list = some list

theorem PassStart.passCoherent (begins : PassStart s) : PassCoherent s := by
  have started : Started s.system := ⟨begins.booted, begins.live⟩
  refine ⟨started.systemCoherent, ?_, ?_, ?_⟩
  · intro t call inside
    rw [begins.calls] at inside
    cases inside
  · intro t live
    rw [begins.live] at live
    exact absurd live List.not_mem_nil
  · intro t list isPopped
    rw [begins.popped] at isPopped
    cases isPopped

theorem settle_keeps {later : System} (holds : PassCoherent s) (coherent : SystemCoherent later)
    (onward : Onward s.system later) : PassCoherent (s.settle later) := by
  refine ⟨coherent, ?_, ?_, ?_⟩
  · intro t call inside
    simp only [PassState.settle] at inside
    split at inside
    · exact holds.plain t call inside
    · cases inside
  · intro t live blocked
    rcases onward.task t live with ⟨old, unmoved⟩ | ⟨_, ready⟩
    · obtain ⟨call, inCall, reason, object, status⟩ :=
        holds.asleep t old (unmoved.asleep blocked)
      obtain ⟨sameReason, sameObject, sameStatus⟩ := unmoved.fields (Or.inl blocked)
      exact ⟨call, (if_pos live).trans inCall, sameReason.trans reason, sameObject.trans object,
        sameStatus.trans status⟩
    · have ready : (s.settle later).kernel.state t = .ready := ready
      rw [ready] at blocked
      cases blocked
  · intro t list isPopped
    simp only [PassState.settle] at isPopped
    split at isPopped
    · rename_i live
      obtain ⟨old, awake, status, call, inCall, isList⟩ := holds.popped t list isPopped
      rcases onward.task t live with ⟨_, unmoved⟩ | ⟨new, _⟩
      · exact ⟨live, (unmoved.awake awake).1, (unmoved.awake awake).2.trans status, call,
          (if_pos live).trans inCall, isList⟩
      · exact absurd old new
    · cases isPopped

theorem finish_keeps {status : Status} (holds : PassCoherent s)
    (awake : s.kernel.state self ≠ .blocked) : PassCoherent (s.finish self call status) := by
  refine ⟨holds.system, ?_, ?_, ?_⟩
  · intro t other inside
    by_cases same : t = self
    · subst t
      simp [PassState.finish] at inside
    · simp only [PassState.finish, Function.update_of_ne same] at inside
      exact holds.plain t other inside
  · intro t live blocked
    have different : t ≠ self := by
      rintro rfl
      exact awake blocked
    simp only [PassState.finish, Function.update_of_ne different]
    exact holds.asleep t live blocked
  · intro t list isPopped
    by_cases same : t = self
    · subst t
      simp [PassState.finish] at isPopped
    · simp only [PassState.finish, Function.update_of_ne same] at isPopped ⊢
      exact holds.popped t list isPopped

theorem passed_keeps {outcome : Outcome} (holds : PassCoherent s)
    (coherent : SystemCoherent ⟨result, s.live⟩) (plain : call.isMutex = false)
    (awake : s.kernel.state self ≠ .blocked)
    (effect : PassEffect s.kernel self call outcome result) :
    PassCoherent (s.passed self call outcome result) := by
  have headSleeps : ∀ list first, s.kernel.waitHead list = some first →
      first ∈ s.live ∧ Sleeps s.kernel.toCore first list :=
    fun list first headAt => holds.system.head_sleeps headAt
  have headBlocked : ∀ list first, s.kernel.waitHead list = some first →
      s.kernel.state first = .blocked := fun list first headAt => (headSleeps list first headAt).2.1
  refine ⟨coherent, ?_, ?_, ?_⟩
  · intro t other inside
    by_cases same : t = self
    · subst t
      simp only [PassState.passed, Function.update_self] at inside
      split at inside
      · cases inside
        exact plain
      · cases inside
    · simp only [PassState.passed, Function.update_of_ne same] at inside
      exact holds.plain t other inside
  · intro t live blocked
    by_cases moves : outcome = .blocks ∧ t = self
    · obtain ⟨rfl, rfl⟩ := moves
      refine ⟨call, by simp [PassState.passed], ?_⟩
      cases effect with
      | blocks none exhausted core =>
          simp only [PassState.passed]
          rw [core]
          simp [blockState, blockFields]
    · have unmoved := effect.unmoved headBlocked (not_and_or.mp moves)
      have wasBlocked := unmoved.asleep blocked
      have different : t ≠ self := by
        rintro rfl
        exact awake wasBlocked
      obtain ⟨other, inCall, reason, object, status⟩ := holds.asleep t live wasBlocked
      obtain ⟨sameReason, sameObject, sameStatus⟩ := unmoved.fields (Or.inl blocked)
      refine ⟨other, ?_, sameReason.trans reason, sameObject.trans object,
        sameStatus.trans status⟩
      simp only [PassState.passed, Function.update_of_ne different]
      exact inCall
  · intro t list isPopped
    rcases notePopped_cases isPopped with old | ⟨raised, supplied, headAt⟩
    · have different : t ≠ self := by
        rintro rfl
        rw [Function.update_self] at old
        cases old
      rw [Function.update_of_ne different] at old
      obtain ⟨live, wasAwake, status, other, inCall, isList⟩ := holds.popped t list old
      have unmoved := (effect.unmoved headBlocked (Or.inr different)).awake wasAwake
      refine ⟨live, unmoved.1, unmoved.2.trans status, other, ?_, isList⟩
      simp only [PassState.passed, Function.update_of_ne different]
      exact inCall
    · obtain ⟨live, blocked, named⟩ := headSleeps list t headAt
      have different : t ≠ self := by
        rintro rfl
        exact awake blocked
      obtain ⟨other, inCall, reason, object, status⟩ := holds.asleep t live blocked
      obtain ⟨ready, sameStatus⟩ := effect.first_ready supplied headAt
      rw [reason, object] at named
      refine ⟨live, ?_, sameStatus.trans status, other, ?_, named⟩
      · simp only [PassState.passed]
        rw [ready]
        decide
      · simp only [PassState.passed, Function.update_of_ne different]
        exact inCall

/-! ### Units -/

theorem available_setCount (kernel : Kernel) (sem count : Nat) :
    available (setCount kernel sem count).toCore =
      Function.update (available kernel.toCore) (.semaphore sem) count := by
  funext list
  cases list with
  | semaphore other =>
      by_cases same : other = sem
      · subst other
        simp [available, setCount]
      · simp [available, setCount, same]
  | mutex m => simp [available]
  | msgSend q => simp [available, setCount]
  | msgRecv q => simp [available, setCount]

theorem available_setQueue (kernel : Kernel) (q : Nat) (value : MsgQueue) :
    available (setQueue kernel q value).toCore =
      Function.update (Function.update (available kernel.toCore) (.msgSend q)
        (value.depth - value.count)) (.msgRecv q) value.count := by
  funext list
  cases list with
  | mutex m => simp [available]
  | semaphore sem => simp [available, setQueue]
  | msgSend other =>
      by_cases same : other = q
      · subst other
        simp [available, setQueue]
      · simp [available, setQueue, same]
  | msgRecv other =>
      by_cases same : other = q
      · subst other
        simp [available, setQueue]
      · simp [available, setQueue, same]

theorem WakesFirst.available_eq {before after : Kernel} (wakes : WakesFirst before list after) :
    available after.toCore = available before.toCore := by
  funext other
  rcases wakes with ⟨_, core⟩ | ⟨first, _, core⟩
  · rw [core]
    cases other <;> rfl
  · rw [core]
    cases other <;> rfl

def Call.supplied (kernel : Kernel) (call : Call) : Option WaitId :=
  (call.supplies kernel).map Prod.fst

/-- A call that supplies a list leaves one unit more for it, and has taken a unit
itself if it is one that can wait. -/
theorem supplies_available {raised : Kernel}
    (supplied : call.supplies kernel = some (list, raised)) :
    available raised.toCore list ≤ available kernel.toCore list + 1 ∧
      (∀ other, other ≠ list →
        available raised.toCore other ≤ available kernel.toCore other) ∧
      ∀ own, call.list = some own → own ≠ list ∧
        available raised.toCore own + 1 ≤ available kernel.toCore own := by
  rcases supplies_cases supplied with ⟨sem, rfl, rfl, _, rfl⟩ |
    ⟨q, msg, ticks, rfl, rfl, room, rfl⟩ | ⟨q, ticks, rfl, rfl, positive, rfl⟩
  · rw [available_setCount]
    refine ⟨?_, ?_, ?_⟩
    · rw [Function.update_self]
      exact Nat.le_refl _
    · intro other different
      rw [Function.update_of_ne different]
    · intro own isOwn
      cases isOwn
  · have fewer : (kernel.msgQueue q).depth - ((kernel.msgQueue q).count + 1) + 1 =
        (kernel.msgQueue q).depth - (kernel.msgQueue q).count := by omega
    rw [available_setQueue]
    refine ⟨?_, ?_, ?_⟩
    · rw [Function.update_self]
      exact Nat.le_refl _
    · intro other different
      rw [Function.update_of_ne different]
      by_cases sends : other = .msgSend q
      · subst other
        rw [Function.update_self]
        exact Nat.le_trans (Nat.le_succ _) (Nat.le_of_eq fewer)
      · rw [Function.update_of_ne sends]
    · intro own isOwn
      cases isOwn
      refine ⟨by simp, ?_⟩
      rw [Function.update_of_ne (by simp), Function.update_self]
      exact Nat.le_of_eq fewer
  · rw [available_setQueue]
    refine ⟨?_, ?_, ?_⟩
    · rw [Function.update_of_ne (by simp), Function.update_self]
      simp only [popMessage, available]
      omega
    · intro other different
      by_cases receives : other = .msgRecv q
      · subst other
        rw [Function.update_self]
        exact Nat.sub_le _ _
      · rw [Function.update_of_ne receives, Function.update_of_ne different]
    · intro own isOwn
      cases isOwn
      refine ⟨by simp, ?_⟩
      rw [Function.update_self]
      exact Nat.le_of_eq (Nat.sub_add_cancel positive)

theorem PassEffect.available_returns {outcome : Outcome}
    (effect : PassEffect kernel self call outcome result) (returns : outcome ≠ .blocks) :
    (∀ own, call.list = some own → call.supplied kernel ≠ some own ∧
        available result.toCore own + 1 ≤ available kernel.toCore own) ∧
      ∀ other, available result.toCore other ≤ available kernel.toCore other +
        if call.supplied kernel = some other then 1 else 0 := by
  cases effect with
  | blocks none exhausted core => exact absurd rfl returns
  | fails failed waitsNowhere none =>
      refine ⟨?_, fun other => Nat.le_add_right _ _⟩
      intro own isOwn
      rw [waitsNowhere] at isOwn
      cases isOwn
  | @takes sem ticks isWait positive =>
      subst isWait
      rw [available_setCount]
      constructor
      · intro own isOwn
        cases isOwn
        refine ⟨by simp [Call.supplied, Call.supplies], ?_⟩
        rw [Function.update_self]
        exact Nat.le_of_eq (Nat.sub_add_cancel positive)
      · intro other
        refine Nat.le_trans ?_ (Nat.le_add_right _ _)
        by_cases same : other = .semaphore sem
        · subst other
          rw [Function.update_self]
          exact Nat.sub_le _ _
        · rw [Function.update_of_ne same]
  | @supplies list raised result out supplied wakes =>
      obtain ⟨more, others, own⟩ := supplies_available supplied
      have isList : call.supplied kernel = some list := by
        rw [Call.supplied, supplied]
        rfl
      rw [wakes.available_eq, isList]
      constructor
      · intro wanted isOwn
        obtain ⟨different, fewer⟩ := own wanted isOwn
        exact ⟨fun same => different (Option.some.inj same).symm, fewer⟩
      · intro other
        by_cases same : other = list
        · subst other
          rw [if_pos rfl]
          exact more
        · exact Nat.le_trans (others other same) (Nat.le_add_right _ _)

/-! ### Counting the tasks on record -/

theorem countP_exchange {items : List Addr} {left right : Addr → Bool} (distinct : items.Nodup)
    (member : t ∈ items) (elsewhere : ∀ item, item ≠ t → left item = right item) :
    items.countP left + (right t).toNat = items.countP right + (left t).toNat := by
  have shares : (items.erase t).countP left = (items.erase t).countP right := by
    refine List.countP_congr fun item inside => ?_
    rw [elsewhere item (distinct.mem_erase_iff.mp inside).1]
  have split := List.perm_cons_erase member
  rw [split.countP_eq left, split.countP_eq right, List.countP_cons, List.countP_cons, shares]
  cases left t <;> cases right t <;> rfl

def recorded (live : List Addr) (popped : Addr → Option WaitId) (list : WaitId) : Nat :=
  live.countP fun t => decide (popped t = some list)

def PassState.woken (s : PassState) (list : WaitId) : Nat := recorded s.live s.popped list

theorem recorded_update {live : List Addr} {popped : Addr → Option WaitId}
    {value : Option WaitId} (distinct : live.Nodup) (member : t ∈ live) :
    recorded live (Function.update popped t value) list + (decide (popped t = some list)).toNat =
      recorded live popped list + (decide (value = some list)).toNat := by
  have exchange := @countP_exchange t live
    (fun item => decide (Function.update popped t value item = some list))
    (fun item => decide (popped item = some list)) distinct member
    (fun item different => by rw [Function.update_of_ne different])
  simp only [Function.update_self] at exchange
  exact exchange

theorem recorded_notePopped {live : List Addr} {popped : Addr → Option WaitId}
    (distinct : live.Nodup)
    (free : ∀ list first, kernel.waitHead list = some first →
      first ∈ live ∧ popped first = none) :
    recorded live (notePopped kernel call popped) list = recorded live popped list +
      if call.supplied kernel = some list ∧ kernel.waitHead list ≠ none then 1 else 0 := by
  unfold notePopped Call.supplied
  cases supplied : call.supplies kernel with
  | none => simp
  | some supply =>
      obtain ⟨target, raised⟩ := supply
      cases headAt : kernel.waitHead target with
      | none =>
          have nobody : ¬ (some target = some list ∧ kernel.waitHead list ≠ none) := by
            rintro ⟨same, nonempty⟩
            cases same
            exact nonempty headAt
          simp only [headAt, Option.map_some]
          rw [if_neg nobody, Nat.add_zero]
      | some first =>
          obtain ⟨member, unrecorded⟩ := free target first headAt
          have exchange :=
            @recorded_update first list live popped (some target) distinct member
          rw [unrecorded] at exchange
          by_cases same : target = list
          · subst target
            simpa [headAt] using exchange
          · simpa [headAt, same] using exchange

/-! ### Enough wakeups -/

/-- A list with waiters has as many popped tasks as there are units for it. -/
def Enough (s : PassState) : Prop :=
  ∀ list, s.kernel.waitHead list ≠ none → available s.kernel.toCore list ≤ s.woken list

theorem PassStart.enough (begins : PassStart s) : Enough s := by
  intro list nonempty
  obtain ⟨t, live, _⟩ := begins.passCoherent.system.waitHead_ne_none_iff.mp nonempty
  have none : t ∈ s.live := live
  rw [begins.live] at none
  exact absurd none List.not_mem_nil

/-- A pass that blocks finds no unit for its own list and changes none. -/
theorem PassEffect.available_blocks (effect : PassEffect kernel self call .blocks result) :
    available result.toCore = available kernel.toCore ∧
      (∀ own, call.list = some own → available kernel.toCore own = 0) ∧
      waitId (result.blockReason self) (result.blockObject self) = call.list := by
  cases effect with
  | blocks none exhausted core =>
      rw [core]
      refine ⟨?_, exhausted, ?_⟩
      · funext list
        cases list <;> rfl
      · simp [blockState, blockFields, Call.list]

theorem passed_enough {outcome : Outcome} (holds : PassCoherent s) (enough : Enough s)
    (coherent : SystemCoherent ⟨result, s.live⟩) (live : self ∈ s.live)
    (awake : s.kernel.state self ≠ .blocked)
    (inCall : ∀ list, s.popped self = some list → call.list = some list)
    (effect : PassEffect s.kernel self call outcome result) :
    Enough (s.passed self call outcome result) := by
  have headSleeps : ∀ list first, s.kernel.waitHead list = some first →
      first ∈ s.live ∧ Sleeps s.kernel.toCore first list :=
    fun list first headAt => holds.system.head_sleeps headAt
  have free : ∀ list first, s.kernel.waitHead list = some first →
      first ∈ s.live ∧ Function.update s.popped self none first = none := by
    intro other first headAt
    obtain ⟨member, blocked, _⟩ := headSleeps other first headAt
    refine ⟨member, ?_⟩
    have different : first ≠ self := by
      rintro rfl
      exact awake blocked
    rw [Function.update_of_ne different]
    refine Option.eq_none_iff_forall_ne_some.mpr fun target isPopped => ?_
    exact (holds.popped first target isPopped).2.1 blocked
  have distinct : s.live.Nodup := holds.system.distinct
  intro list nonempty
  change available result.toCore list ≤ recorded s.live (notePopped s.kernel call _) list
  rw [recorded_notePopped distinct free]
  have cleared := @recorded_update self list s.live s.popped none distinct live
  simp only [reduceCtorEq, decide_false, Bool.toNat_false, Nat.add_zero] at cleared
  obtain ⟨t, member, sleeps⟩ := coherent.waitHead_ne_none_iff.mp nonempty
  have earlier : outcome ≠ .blocks ∨ t ≠ self → s.kernel.waitHead list ≠ none := by
    intro elsewhere
    have unmoved := effect.unmoved (fun other first headAt => (headSleeps other first headAt).2.1)
      elsewhere
    exact holds.system.waitHead_ne_none_iff.mpr ⟨t, member, unmoved.sleeps sleeps⟩
  by_cases isBlocks : outcome = .blocks
  · subst isBlocks
    obtain ⟨same, exhausted, named⟩ := effect.available_blocks
    rw [same]
    by_cases isOwn : call.list = some list
    · rw [exhausted list isOwn]
      exact Nat.zero_le _
    · have different : t ≠ self := by
        rintro rfl
        exact isOwn (named.symm.trans sleeps.2)
      have units : _ ≤ recorded s.live s.popped list := enough list (earlier (Or.inr different))
      have notPopped : s.popped self ≠ some list := fun isPopped => isOwn (inCall list isPopped)
      simp only [notPopped, decide_false, Bool.toNat_false, Nat.add_zero] at cleared
      omega
  · have before := earlier (Or.inl isBlocks)
    have units : _ ≤ recorded s.live s.popped list := enough list before
    obtain ⟨own, others⟩ := effect.available_returns isBlocks
    have bound := others list
    by_cases isPopped : s.popped self = some list
    · have fewer := (own list (inCall list isPopped)).2
      simp only [isPopped, decide_true, Bool.toNat_true] at cleared
      omega
    · simp only [isPopped, decide_false, Bool.toNat_false, Nat.add_zero] at cleared
      by_cases isSupplied : call.supplied s.kernel = some list
      · rw [if_pos isSupplied] at bound
        rw [if_pos ⟨isSupplied, before⟩]
        omega
      · rw [if_neg isSupplied] at bound
        omega

theorem finish_enough {status : Status} (enough : Enough s) (unrecorded : s.popped self = none) :
    Enough (s.finish self call status) := by
  have same : Function.update s.popped self none = s.popped := by
    rw [← unrecorded, Function.update_eq_self]
  intro list nonempty
  have units : _ ≤ recorded s.live s.popped list := enough list nonempty
  change _ ≤ recorded s.live (Function.update s.popped self none) list
  rw [same]
  exact units

theorem PassCoherent.unrecorded (holds : PassCoherent s) (inCall : s.calls self = some call)
    (ends : s.kernel.blockWakeStatus self = .errTimeout ∨ ∃ ticks, call = .delay ticks) :
    s.popped self = none := by
  refine Option.eq_none_iff_forall_ne_some.mpr fun list isPopped => ?_
  obtain ⟨_, _, status, other, inOther, isList⟩ := holds.popped self list isPopped
  rw [inCall] at inOther
  cases inOther
  rcases ends with expired | ⟨ticks, rfl⟩
  · rw [status] at expired
    cases expired
  · cases isList

theorem settle_woken (s : PassState) (later : System) (list : WaitId) :
    (s.settle later).woken list = recorded later.live s.popped list := by
  refine List.countP_congr fun t live => ?_
  have kept : (s.settle later).popped t = s.popped t := if_pos live
  rw [kept]

theorem Onward.waitHead {later : System} (onward : Onward system later)
    (holds : SystemCoherent system) (coherent : SystemCoherent later)
    (nonempty : later.kernel.waitHead list ≠ none) : system.kernel.waitHead list ≠ none := by
  obtain ⟨t, live, sleeps⟩ := coherent.waitHead_ne_none_iff.mp nonempty
  refine holds.waitHead_ne_none_iff.mpr ⟨t, ?_⟩
  rcases onward.task t live with ⟨old, unmoved⟩ | ⟨_, ready⟩
  · exact ⟨old, unmoved.sleeps sleeps⟩
  · have blocked := sleeps.1
    rw [ready] at blocked
    cases blocked

theorem Onward.available_eq {later : System} (onward : Onward system later) :
    available later.kernel.toCore = available system.kernel.toCore := by
  funext list
  cases list <;> simp only [available, onward.semaphore, onward.msgQueue]

/-- If the task is on record for a list with waiters, another popped task can be
spared. -/
def KeepsWakeup (s : PassState) (t : Addr) : Prop :=
  ∀ list ∈ s.popped t, s.kernel.waitHead list ≠ none →
    available s.kernel.toCore list < s.woken list

instance (s : PassState) (t : Addr) : Decidable (KeepsWakeup s t) :=
  inferInstanceAs (Decidable (∀ list ∈ s.popped t, s.kernel.waitHead list ≠ none →
    available s.kernel.toCore list < s.woken list))

theorem settle_enough {later : System} {choice : Action} (holds : PassCoherent s)
    (enough : Enough s) (coherent : SystemCoherent later) (onward : Onward s.system later)
    (tasks : later.live = s.live ∨ (∃ tcb, tcb ∉ s.live ∧ later.live = tcb :: s.live) ∨
      ∃ tcb, choice = .delete tcb ∧ later.live = s.live.erase tcb)
    (spares : ∀ tcb, choice = .delete tcb → KeepsWakeup s tcb) : Enough (s.settle later) := by
  intro list nonempty
  have before : s.kernel.waitHead list ≠ none :=
    onward.waitHead holds.system coherent nonempty
  have units : available s.kernel.toCore list ≤ recorded s.live s.popped list :=
    enough list before
  rw [settle_woken]
  change available later.kernel.toCore list ≤ _
  rw [onward.available_eq]
  change available s.kernel.toCore list ≤ _
  rcases tasks with same | ⟨tcb, new, one⟩ | ⟨tcb, isDelete, fewer⟩
  · rw [same]
    exact units
  · rw [one]
    exact Nat.le_trans units (List.sublist_cons_self tcb s.live).countP_le
  · rw [fewer, recorded, List.countP_erase]
    by_cases isPopped : s.popped tcb = some list
    · have spared : available s.kernel.toCore list < recorded s.live s.popped list :=
        spares tcb isDelete list isPopped before
      unfold recorded at spared
      split <;> omega
    · rw [if_neg (fun both => isPopped (of_decide_eq_true both.2)), Nat.sub_zero]
      exact units

/-! ### Runs -/

def PassAction.mutexFree : PassAction → Bool
  | .call call => !call.isMutex
  | _ => true

def PassAction.deletes : PassAction → Option Addr
  | .other (.delete tcb) => some tcb
  | _ => none

/-- No mutex is used, and no popped task is deleted that is needed. -/
def SparesWakeups (s : PassState) (action : PassAction) : Prop :=
  action.mutexFree = true ∧ ∀ tcb ∈ action.deletes, KeepsWakeup s tcb

instance (s : PassState) (action : PassAction) : Decidable (SparesWakeups s action) :=
  inferInstanceAs (Decidable
    (action.mutexFree = true ∧ ∀ tcb ∈ action.deletes, KeepsWakeup s tcb))

theorem PassCoherent.isPlain {action : PassAction} (holds : PassCoherent s)
    (free : action.mutexFree = true)
    (course : action = .call call ∧ s.calls self = none ∨
      action = .resume ∧ s.calls self = some call) : call.isMutex = false := by
  rcases course with ⟨rfl, _⟩ | ⟨rfl, inside⟩
  · simpa [PassAction.mutexFree] using free
  · exact holds.plain self call inside

theorem passStep_keeps {action : PassAction} (holds : PassCoherent s)
    (free : action.mutexFree = true) (taken : passStep s action = some after) :
    PassCoherent after ∧
      ((∀ tcb ∈ action.deletes, KeepsWakeup s tcb) → Enough s → Enough after) := by
  rcases passStep_cases taken with ⟨choice, later, rfl, noCall, stepped, rfl⟩ |
    ⟨self, call, status, isCurrent, can, inCall, ends, rfl⟩ |
    ⟨self, call, outcome, result, isCurrent, can, course, returned, rfl⟩
  · have bucket : UnlockKeepsBucket s.system choice := by
      cases choice with
      | call call => exact absurd rfl (noCall call)
      | _ => trivial
    have coherent := step_keeps holds.system bucket stepped
    obtain ⟨onward, tasks⟩ := step_onward holds.system noCall stepped
    refine ⟨settle_keeps holds coherent onward, fun spares enough => ?_⟩
    exact settle_enough holds enough coherent onward tasks fun tcb isDelete =>
      spares tcb (by rw [isDelete]; rfl)
  · obtain ⟨notIdle, awake⟩ := canCall_some can isCurrent
    refine ⟨finish_keeps holds awake, fun _ enough => finish_enough enough ?_⟩
    exact holds.unrecorded inCall (ends.imp_left And.right)
  · obtain ⟨notIdle, awake⟩ := canCall_some can isCurrent
    have plain := holds.isPlain free course
    have listed : ∀ list, s.popped self = some list → call.list = some list := by
      intro list isPopped
      obtain ⟨_, _, _, other, inOther, isList⟩ := holds.popped self list isPopped
      rcases course with ⟨_, outside⟩ | ⟨_, inside⟩
      · rw [outside] at inOther
        cases inOther
      · rw [inside] at inOther
        cases inOther
        exact isList
    have live : self ∈ s.live := by
      have registered := holds.system.coherent.registry.current self isCurrent
      exact ((holds.system.registry self).mp registered).resolve_right notIdle
    have keepsBucket : KeepsBucket s.kernel self call := by
      cases call with
      | unlock m => cases plain
      | _ => trivial
    obtain ⟨sameOutcome, sameResult, again, coherent, same⟩ :=
      callPass_keeps holds.system.coherent isCurrent notIdle awake call fun _ => keepsBucket
    cases returned.symm.trans again
    have system := holds.system.of_kernel coherent same.registry same.idle
    have effect := callPass_effect isCurrent plain returned
    exact ⟨passed_keeps holds system plain awake effect,
      fun _ enough => passed_enough holds enough system live awake listed effect⟩

theorem Reachable.enough (reached : Reachable PassStart passStep SparesWakeups s) :
    PassCoherent s ∧ Enough s :=
  Transition.Reachable.invariant (fun s => PassCoherent s ∧ Enough s)
    (fun _ begins => ⟨begins.passCoherent, begins.enough⟩)
    (fun _ _ _ holds permitted taken =>
      have kept := passStep_keeps holds.1 permitted.1 taken
      ⟨kept.1, kept.2 permitted.2 holds.2⟩) reached

end MicrokernelRtos
