/-
The operations keep the wait lists and what they mean.

Nothing here depends on the ready rings: an operation that returns has left the
wait lists as stated, whatever it found in the rings.
-/

import MicrokernelRtos.Coherence.Frames
import MicrokernelRtos.Coherence.Shape

namespace MicrokernelRtos

open Linked

def removeWaiter (waits : WaitId → List Addr) (t : Addr) : WaitId → List Addr :=
  fun list => (waits list).erase t

def addWaiter (waits : WaitId → List Addr) (list : WaitId) (t : Addr) : WaitId → List Addr :=
  Function.update waits list (waits list ++ [t])

variable {kernel result : Kernel} {waits : WaitId → List Addr}
variable {window : Addr → Option WaitId} {t self : Addr} {list : WaitId}

theorem mem_addWaiter (waits : WaitId → List Addr) (list : WaitId) (t : Addr)
    (target : WaitId) (item : Addr) :
    item ∈ addWaiter waits list t target ↔
      item ∈ waits target ∨ (target = list ∧ item = t) := by
  unfold addWaiter
  by_cases same : target = list
  · subst target
    simp
  · simp [same]

theorem mem_removeWaiter (lists : kernel.WaitsAre waits) (target : WaitId) (item : Addr) :
    item ∈ removeWaiter waits t target ↔ item ∈ waits target ∧ item ≠ t := by
  unfold removeWaiter
  rw [(lists.queue target).distinct.mem_erase_iff, and_comm]

theorem removeWaiter_of_notMem (absent : ∀ target, t ∉ waits target) :
    removeWaiter waits t = waits :=
  funext fun target => List.erase_of_not_mem (absent target)

theorem update_erase_eq (only : ∀ target, t ∈ waits target → target = list) :
    Function.update waits list ((waits list).erase t) = removeWaiter waits t := by
  funext target
  by_cases same : target = list
  · subst target
    exact Function.update_self _ _ _
  · rw [Function.update_of_ne same]
    exact (List.erase_of_not_mem fun member => same (only target member)).symm

theorem erase_split {before after : List Addr} (distinct : (before ++ t :: after).Nodup) :
    (before ++ t :: after).erase t = before ++ after := by
  have notBefore : t ∉ before := fun inside =>
    (List.nodup_append.mp distinct).2.2 t inside t List.mem_cons_self rfl
  rw [List.erase_append_right _ notBefore, List.erase_cons_head]

theorem update_split_eq (lists : kernel.WaitsAre waits) {before after : List Addr}
    (shape : waits list = before ++ t :: after) :
    Function.update waits list (before ++ after) = removeWaiter waits t := by
  have distinct := (lists.queue list).distinct
  rw [shape] at distinct
  rw [← update_erase_eq fun target member =>
    lists.apart target list t member (by simp [shape]), shape, erase_split distinct]

/-! ### Steps that touch no wait list -/

theorem RegistryShape.congr {core other : Core} (shape : RegistryShape core)
    (registry : other.taskRegistry = core.taskRegistry) (config : other.config = core.config)
    (current : other.currentTcb = core.currentTcb) : RegistryShape other := by
  constructor
  · rw [registry]
    exact shape.distinct
  · rw [registry, config]
    exact shape.bounded
  · rw [registry, current]
    exact shape.current

theorem WaitCoherent.congr {other : Kernel} (coherent : WaitCoherent kernel waits window)
    (links : other.toLinks = kernel.toLinks)
    (registry : other.taskRegistry = kernel.taskRegistry) (config : other.config = kernel.config)
    (current : other.currentTcb = kernel.currentTcb) (state : other.state = kernel.state)
    (reason : other.blockReason = kernel.blockReason)
    (object : other.blockObject = kernel.blockObject) : WaitCoherent other waits window := by
  refine ⟨?_, coherent.registry.congr registry config current,
    coherent.shape.congr registry state reason object⟩
  unfold Kernel.WaitsAre
  rw [links]
  exact coherent.lists

theorem OnlyRings.waitCoherent {before after : Kernel} (frame : OnlyRings before after)
    (coherent : WaitCoherent before waits window) : WaitCoherent after waits window := by
  refine ⟨frame.waitsAre coherent.lists, ?_, ?_⟩
  · rw [frame.core]
    exact coherent.registry
  · rw [frame.core]
    exact coherent.shape

theorem changePriority_waits {tcb : Addr} {value : Nat}
    (coherent : WaitCoherent kernel waits window)
    (returned : changePriority kernel tcb value = some result) :
    WaitCoherent result waits window :=
  (changePriority_onlyRings returned).waitCoherent (coherent.congr rfl rfl rfl rfl rfl rfl rfl)

theorem applyPi_waits {m : Nat} (coherent : WaitCoherent kernel waits window)
    (returned : applyPi kernel m = some result) : WaitCoherent result waits window := by
  rcases applyPi_cases returned with rfl | ⟨owner, hp, _, _, _, changed⟩
  · exact coherent
  · exact changePriority_waits coherent changed

/-! ### Enqueueing, blocking and waking -/

theorem tcbEnqueueTail_waits (coherent : WaitCoherent kernel waits window)
    (live : self ∈ kernel.taskRegistry) (awake : kernel.state self ≠ .blocked)
    (outside : window self = none)
    (returned : tcbEnqueueTail kernel list self = some result) :
    WaitCoherent result (addWaiter waits list self) (Function.update window self (some list)) := by
  obtain ⟨queued, enqueued, lists⟩ := @tcbEnqueueTail_spec kernel waits list self coherent.lists
    (fun other => coherent.shape.notMem awake outside other)
  rw [returned] at enqueued
  cases enqueued
  have frame := tcbEnqueueTail_onlyWaits returned
  have shape := coherent.shape.enqueue live awake outside (mem_addWaiter waits list self)
  refine ⟨lists, ?_, ?_⟩
  · rw [frame.core]
    exact coherent.registry
  · rw [frame.core]
    exact shape

theorem blockFields_waits (coherent : WaitCoherent kernel waits window)
    (awake : kernel.state self ≠ .blocked) (reason : BlockReason) (obj : Option Nat) :
    WaitCoherent (blockFields kernel self reason obj) waits window :=
  ⟨coherent.lists, coherent.registry.congr rfl rfl rfl,
    coherent.shape.blockFields awake reason obj⟩

theorem blockRegion_waits {timeoutTicks : Nat} (coherent : WaitCoherent kernel waits window)
    (live : self ∈ kernel.taskRegistry) (awake : kernel.state self ≠ .blocked)
    (named : waitId (kernel.blockReason self) (kernel.blockObject self) = window self)
    (returned : blockRegion kernel self timeoutTicks = some result) :
    WaitCoherent result waits (Function.update window self none) := by
  refine (blockRegion_onlyRings returned).waitCoherent ⟨coherent.lists, ?_, ?_⟩
  · exact coherent.registry.congr rfl rfl rfl
  · exact (coherent.shape.blockState live awake named timeoutTicks).congr rfl rfl rfl rfl

/-- The wakeup of a task that has been taken off its list: the links say so
already, the fields not yet. -/
theorem makeReady_waits (returned : makeReady kernel t = some result)
    (registry : RegistryShape kernel.toCore) (shape : WaitShape kernel.toCore waits window)
    (lists : kernel.WaitsAre (removeWaiter waits t)) (distinct : ∀ target, (waits target).Nodup)
    (blocked : kernel.state t = .blocked) :
    WaitCoherent result (removeWaiter waits t) window := by
  have removed : ∀ target item, item ∈ removeWaiter waits t target ↔
      item ∈ waits target ∧ item ≠ t := by
    intro target item
    rw [removeWaiter, (distinct target).mem_erase_iff, and_comm]
  refine (makeReady_onlyRings returned).waitCoherent ⟨lists, ?_, shape.ready blocked removed⟩
  exact registry.congr rfl rfl rfl

theorem WaitCoherent.only (coherent : WaitCoherent kernel waits window)
    (blocked : kernel.state t = .blocked)
    (named : waitId (kernel.blockReason t) (kernel.blockObject t) = some list)
    (target : WaitId) (member : t ∈ waits target) : target = list := by
  rcases ((coherent.shape.member target t).mp member).2 with waiting | onWay
  · exact Option.some.inj (waiting.2.symm.trans named)
  · rw [coherent.shape.window_eq_none blocked] at onWay
    cases onWay

theorem WaitCoherent.onNone (coherent : WaitCoherent kernel waits window)
    (blocked : kernel.state t = .blocked)
    (named : waitId (kernel.blockReason t) (kernel.blockObject t) = none)
    (target : WaitId) : t ∉ waits target := by
  intro member
  rcases ((coherent.shape.member target t).mp member).2 with waiting | onWay
  · rw [named] at waiting
    cases waiting.2
  · rw [coherent.shape.window_eq_none blocked] at onWay
    cases onWay

/-! ### Leaving a list -/

theorem WaitCoherent.distinct (coherent : WaitCoherent kernel waits window) (target : WaitId) :
    (waits target).Nodup :=
  (coherent.lists.queue target).distinct

theorem unlinkBlocked_spec (coherent : WaitCoherent kernel waits window)
    (blocked : kernel.state t = .blocked) :
    ∃ unlinked, unlinkBlocked kernel t = some unlinked ∧
      unlinked.WaitsAre (removeWaiter waits t) := by
  unfold unlinkBlocked
  cases named : waitId (kernel.blockReason t) (kernel.blockObject t) with
  | none =>
      rw [removeWaiter_of_notMem (coherent.onNone blocked named)]
      exact ⟨kernel, rfl, coherent.lists⟩
  | some list =>
      obtain ⟨unlinked, removal, lists⟩ :=
        @tcbUnlink_spec kernel waits list t coherent.lists (coherent.length_le list)
      rw [update_erase_eq (coherent.only blocked named)] at lists
      exact ⟨unlinked, removal, lists⟩

theorem popReady_waits {first : Addr} {rest : List Addr}
    (coherent : WaitCoherent kernel waits window) (shape : waits list = first :: rest)
    (blocked : kernel.state first = .blocked)
    (returned : makeReady (tcbPopHead kernel list).2 first = some result) :
    WaitCoherent result (removeWaiter waits first) window := by
  obtain ⟨_, lists⟩ := tcbPopHead_spec coherent.lists shape
  have frame := tcbPopHead_onlyWaits kernel list
  have split := update_split_eq coherent.lists
    (show waits list = [] ++ first :: rest from shape)
  rw [List.nil_append] at split
  rw [split] at lists
  refine makeReady_waits returned ?_ ?_ lists coherent.distinct ?_
  · rw [frame.core]
    exact coherent.registry
  · rw [frame.core]
    exact coherent.shape
  · rw [frame.core]
    exact blocked

/-! ### Ticks -/

instance (kernel : Kernel) (now : Nat) (t : Addr) : Decidable (Expires kernel now t) :=
  inferInstanceAs (Decidable (_ ∧ _))

theorem wakeIfDue_waits {now : Nat} (coherent : WaitCoherent kernel waits window)
    (expires : Expires kernel now t) (returned : wakeIfDue kernel now t = some result) :
    WaitCoherent result (removeWaiter waits t) window := by
  rw [wakeIfDue_eq expires.1 expires.2] at returned
  obtain ⟨unlinked, removal, ready⟩ := Option.bind_eq_some_iff.mp returned
  obtain ⟨other, removedIs, lists⟩ := unlinkBlocked_spec coherent expires.blocked
  rw [removal] at removedIs
  cases removedIs
  obtain ⟨status, onMutex, written, _⟩ := timeoutFields_core (kernel.blockReason t) unlinked t
  rw [(unlinkBlocked_onlyWaits removal).core] at written
  refine makeReady_waits ready ?_ ?_ ?_ coherent.distinct ?_
  · rw [written]
    exact coherent.registry.congr rfl rfl rfl
  · rw [written]
    exact coherent.shape.congr rfl rfl rfl rfl
  · unfold Kernel.WaitsAre
    rw [timeoutFields_links]
    exact lists
  · rw [written]
    exact expires.blocked

def withoutExpired (kernel : Kernel) (now : Nat) (items : List Addr)
    (waits : WaitId → List Addr) : WaitId → List Addr :=
  fun list => (waits list).filter fun item => !decide (item ∈ items ∧ Expires kernel now item)

theorem withoutExpired_cons {now : Nat} {first : Addr} {rest : List Addr} {after : Kernel}
    (distinct : ∀ list, (waits list).Nodup) (expires : Expires kernel now first)
    (wakes : Wakes kernel.toCore after.toCore fun item => item = first ∧
      Expires kernel now first) :
    withoutExpired after now rest (removeWaiter waits first) =
      withoutExpired kernel now (first :: rest) waits := by
  funext list
  unfold withoutExpired removeWaiter
  rw [(distinct list).erase_eq_filter, List.filter_filter]
  refine List.filter_congr fun item _ => ?_
  rw [Bool.eq_iff_iff]
  simp only [Bool.and_eq_true, Bool.not_eq_true', decide_eq_false_iff_not, bne_iff_ne,
    wakes.isDue_iff, List.mem_cons]
  by_cases same : item = first
  · subst item
    simp [expires]
  · simp [same]

theorem withoutExpired_skip {now : Nat} {first : Addr} {rest : List Addr}
    (stays : ¬ Expires kernel now first) :
    withoutExpired kernel now rest waits = withoutExpired kernel now (first :: rest) waits := by
  funext list
  refine List.filter_congr fun item _ => ?_
  by_cases same : item = first
  · subst item
    simp [stays]
  · simp [same]

theorem wakeLoop_waits {now : Nat} {items : List Addr}
    (coherent : WaitCoherent kernel waits window)
    (returned : wakeLoop now items kernel = some result) :
    WaitCoherent result (withoutExpired kernel now items waits) window := by
  induction items generalizing kernel waits with
  | nil =>
      cases returned
      have same : withoutExpired result now [] waits = waits := by
        funext list
        simp [withoutExpired]
      rw [same]
      exact coherent
  | cons first rest ih =>
      obtain ⟨middle, wake, later⟩ := Option.bind_eq_some_iff.mp returned
      by_cases expires : Expires kernel now first
      · have woken := wakeIfDue_waits coherent expires wake
        rw [← withoutExpired_cons coherent.distinct expires (wakeIfDue_wakes wake)]
        exact ih woken later
      · rw [wakeIfDue_of_not expires] at wake
        cases wake
        rw [← withoutExpired_skip expires]
        exact ih coherent later

theorem sysTickHandler_waits (coherent : WaitCoherent kernel waits window)
    (returned : sysTickHandler kernel = some result) :
    WaitCoherent result (withoutExpired (rtosTickIncrement kernel)
      (rtosTickIncrement kernel).tickCount kernel.taskRegistry waits) window := by
  obtain ⟨woken, counter, wake, rfl⟩ := sysTickHandler_cases returned
  have ticked : WaitCoherent (rtosTickIncrement kernel) waits window :=
    coherent.congr rfl rfl rfl rfl rfl rfl rfl
  exact (wakeLoop_waits ticked wake).congr rfl rfl rfl rfl rfl rfl rfl

/-! ### Selection, creation and deletion -/

theorem select_waits {sel : Addr} (coherent : WaitCoherent kernel waits window)
    (live : sel ∈ kernel.taskRegistry) (awake : kernel.state sel ≠ .blocked) :
    WaitCoherent (dispatch (preemptCurrent kernel) sel) waits window := by
  obtain ⟨state, counter, fields⟩ := select_core kernel sel
  have links : (dispatch (preemptCurrent kernel) sel).toLinks = kernel.toLinks :=
    (preemptCurrent_links kernel).1
  constructor
  · unfold Kernel.WaitsAre
    rw [links]
    exact coherent.lists
  · rw [fields]
    refine ⟨coherent.registry.distinct, coherent.registry.bounded, ?_⟩
    intro t isCurrent
    cases isCurrent
    exact live
  · refine coherent.shape.of_blocked_iff ?_ (select_blocked_iff awake) ?_ ?_ <;> rw [fields]

theorem create_waits {tcb priority : Nat} {bucket : Bucket} {added : Kernel}
    (coherent : WaitCoherent kernel waits window) (fresh : tcb ∉ kernel.taskRegistry)
    (bounded : tcb < kernel.config.poolSize)
    (returned : schedulerAddTask (freshTask kernel tcb priority bucket) (some tcb) =
      some (.ok, added)) :
    WaitCoherent { added with taskRegistry := added.taskRegistry ++ [tcb] } waits window := by
  have frame := schedulerAddTask_onlyRings
    (show (freshTask kernel tcb priority bucket).state tcb = .ready from
      Function.update_self _ _ _) returned
  have absent : ∀ list, tcb ∉ waits list := fun list member =>
    fresh ((coherent.shape.member list tcb).mp member).1
  constructor
  · refine frame.waitsAre (coherent.lists.congr ?_)
    intro list item member
    refine Function.update_of_ne ?_ _ _
    rintro rfl
    exact absent list member
  · rw [frame.core]
    constructor
    · refine List.nodup_append.mpr ⟨coherent.registry.distinct, by simp, ?_⟩
      intro item member other isOther same
      rw [List.mem_singleton.mp isOther] at same
      exact fresh (same ▸ member)
    · intro t member
      rcases List.mem_append.mp member with old | new
      · exact coherent.registry.bounded t old
      · rw [List.mem_singleton.mp new]
        exact bounded
    · exact fun t isCurrent => List.mem_append_left _ (coherent.registry.current t isCurrent)
  · rw [frame.core]
    refine coherent.shape.create fresh rfl ?_ ?_ ?_ ?_
    · simp [freshTask]
    · exact fun item different => Function.update_of_ne different _ _
    · exact fun item different => Function.update_of_ne different _ _
    · exact fun item different => Function.update_of_ne different _ _

theorem detachIfBlocked_spec (coherent : WaitCoherent kernel waits window)
    (outside : window t = none) :
    ∃ detached, detachIfBlocked kernel t = some detached ∧
      detached.WaitsAre (removeWaiter waits t) := by
  unfold detachIfBlocked
  by_cases blocked : kernel.state t = .blocked
  · rw [if_pos blocked, detachBlockedTask_eq]
    obtain ⟨unlinked, removal, lists⟩ := unlinkBlocked_spec coherent blocked
    rw [removal]
    refine ⟨_, rfl, ?_⟩
    have cleared : QueueFamily (Function.update unlinked.mutexWaitNext t none)
        unlinked.waitHead unlinked.waitTail (removeWaiter waits t) := by
      refine lists.congr fun list item member => Function.update_of_ne ?_ _ _
      exact ((mem_removeWaiter coherent.lists list item).mp member).2
    unfold Kernel.WaitsAre detachedFields
    simp only
    split
    · exact lists
    · exact cleared
  · rw [if_neg blocked, removeWaiter_of_notMem (coherent.shape.notMem blocked outside)]
    exact ⟨kernel, rfl, coherent.lists⟩

theorem delete_waits {detached removed : Kernel} (coherent : WaitCoherent kernel waits window)
    (outside : window t = none) (notCurrent : some t ≠ kernel.currentTcb)
    (detachment : detachIfBlocked kernel t = some detached)
    (removal : schedulerRemoveTask detached (some t) = some removed) :
    WaitCoherent { removed with
      state := Function.update removed.state t .terminated
      taskRegistry := removed.taskRegistry.erase t } (removeWaiter waits t) window := by
  obtain ⟨other, detachedIs, lists⟩ := detachIfBlocked_spec coherent outside
  rw [detachment] at detachedIs
  cases detachedIs
  have frame := schedulerRemoveTask_onlyRings removal
  obtain ⟨reason, object, onMutex, fields, elsewhere⟩ := detachIfBlocked_core detachment
  have core := frame.core.trans fields
  refine ⟨frame.waitsAre lists, ?_, ?_⟩
  · rw [core]
    refine ⟨coherent.registry.distinct.erase t, ?_, ?_⟩
    · exact fun item member => coherent.registry.bounded item (List.mem_of_mem_erase member)
    · intro item isCurrent
      refine (coherent.registry.distinct.mem_erase_iff).mpr ⟨?_, ?_⟩
      · rintro rfl
        exact notCurrent isCurrent.symm
      · exact coherent.registry.current item isCurrent
  · rw [core]
    refine coherent.shape.delete coherent.registry.distinct outside rfl ?_ ?_ ?_
      (mem_removeWaiter coherent.lists)
    · exact fun item different => Function.update_of_ne different _ _
    · exact fun item different => (elsewhere item different).1
    · exact fun item different => (elsewhere item different).2.1

/-! ### The regions of the calls -/

theorem mutexLockRegion_waits {m : Nat} {outcome : Outcome}
    (coherent : WaitCoherent kernel waits window) (live : self ∈ kernel.taskRegistry)
    (awake : kernel.state self ≠ .blocked) (outside : window self = none)
    (returned : mutexLockRegion kernel m self = some (outcome, result)) :
    (outcome = .returns .ok [] ∧ WaitCoherent result waits window) ∨
      (outcome = .blocks ∧ WaitCoherent result (addWaiter waits (.mutex m) self)
        (Function.update window self (some (.mutex m)))) := by
  rcases mutexLockRegion_cases returned with
    ⟨isOk, _, _, rfl⟩ | ⟨isOk, _, rfl⟩ | ⟨blocks, _, _, queued, enqueued, boost⟩
  · exact Or.inl ⟨isOk, coherent⟩
  · exact Or.inl ⟨isOk, coherent.congr rfl rfl rfl rfl rfl rfl rfl⟩
  · have noted : WaitCoherent (noteMutex kernel m self) waits window :=
      coherent.congr rfl rfl rfl rfl rfl rfl rfl
    exact Or.inr ⟨blocks, applyPi_waits (tcbEnqueueTail_waits noted live awake outside enqueued)
      boost⟩

/-- The waiter an unlock hands the mutex to, if there is one, is the earliest of
the smallest priority. -/
theorem mutexUnlockRegion_waits {m : Nat} (coherent : WaitCoherent kernel waits window)
    (awake : kernel.state self ≠ .blocked) (outside : window self = none)
    (heirBlocked : ∀ heir, firstHighest kernel.priority (waits (.mutex m)) = some heir →
      kernel.state heir = .blocked)
    (returned : mutexUnlockRegion kernel m self = some result) :
    (waits (.mutex m) = [] ∧ WaitCoherent result waits window ∧
      result.toCore = (schedulerMarkReschedule
        (release (priorityFields kernel self (kernel.basePriority self)) m)).toCore) ∨
    ∃ heir, firstHighest kernel.priority (waits (.mutex m)) = some heir ∧
      WaitCoherent result (removeWaiter waits heir) window ∧
      result.toCore = (schedulerMarkReschedule (readyFields (handOver
        (priorityFields kernel self (kernel.basePriority self)) m heir) heir)).toCore := by
  obtain ⟨restored, next, popped, restore, pop, ending⟩ := mutexUnlockRegion_cases returned
  have restoredWaits := changePriority_waits coherent restore
  have restoredCore := (changePriority_onlyRings restore).core
  have poppedFrame := waitPopHighest_onlyWaits pop
  have poppedCore := poppedFrame.core.trans restoredCore
  have samePriority : firstHighest restored.priority (waits (.mutex m)) =
      firstHighest kernel.priority (waits (.mutex m)) := by
    refine firstHighest_congr fun item member => ?_
    rw [restoredCore]
    refine Function.update_of_ne ?_ _ _
    rintro rfl
    exact coherent.shape.notMem awake outside _ member
  by_cases empty : waits (.mutex m) = []
  · rw [waitPopHighest_empty restoredWaits.lists empty] at pop
    cases pop
    rcases ending with ⟨_, rfl⟩ | ⟨heir, woken, isSome, _⟩
    · refine Or.inl ⟨empty, restoredWaits.congr rfl rfl rfl rfl rfl rfl rfl, ?_⟩
      rw [schedulerMarkReschedule, release, restoredCore]
      rfl
    · cases isSome
  · obtain ⟨before, best, after, poppedKernel, split, above, atLeast, popIs, lists⟩ :=
      waitPopHighest_spec restoredWaits.lists (restoredWaits.length_le _) empty
    rw [pop] at popIs
    cases popIs
    rcases ending with ⟨isNone, _⟩ | ⟨heir, woken, isSome, wake, rfl⟩
    · cases isNone
    · cases isSome
      have chosen : firstHighest kernel.priority (waits (.mutex m)) = some best := by
        rw [← samePriority, split]
        exact firstHighest_of_split above atLeast
      rw [update_split_eq restoredWaits.lists split] at lists
      have blocked := heirBlocked best chosen
      refine Or.inr ⟨best, chosen, ?_, ?_⟩
      · have woke : WaitCoherent woken (removeWaiter waits best) window := by
          refine makeReady_waits wake ?_ ?_ lists coherent.distinct ?_
          · rw [handOver, poppedCore]
            exact coherent.registry.congr rfl rfl rfl
          · rw [handOver, poppedCore]
            exact coherent.shape.congr rfl rfl rfl rfl
          · rw [handOver, poppedCore]
            exact blocked
        exact woke.congr rfl rfl rfl rfl rfl rfl rfl
      · rw [schedulerMarkReschedule, (makeReady_onlyRings wake).core, readyFields, handOver,
          poppedCore]
        rfl

theorem wakeHead_waits (coherent : WaitCoherent kernel waits window)
    (headBlocked : ∀ first, kernel.waitHead list = some first → kernel.state first = .blocked)
    (returned : wakeHead kernel list = some result) :
    WaitCoherent result (Function.update waits list (waits list).tail) window := by
  rcases wakeHead_cases returned with ⟨empty, rfl⟩ | ⟨first, woken, headAt, wake, rfl⟩
  · rw [coherent.lists.head_eq_none_iff] at empty
    rw [empty, List.tail_nil, ← empty, Function.update_eq_self]
    exact coherent
  · cases shape : waits list with
    | nil =>
        rw [coherent.lists.head_eq_none_iff.mpr shape] at headAt
        cases headAt
    | cons head rest =>
        have sameHead := coherent.lists.head_eq_some shape
        rw [headAt] at sameHead
        cases sameHead
        have split := update_split_eq coherent.lists
          (show waits list = [] ++ first :: rest from shape)
        rw [List.nil_append] at split
        rw [List.tail_cons, split]
        have woke := popReady_waits coherent shape (headBlocked first headAt) wake
        exact woke.congr rfl rfl rfl rfl rfl rfl rfl

end MicrokernelRtos
