/-
One call of `rtos_wake_delayed`.

The loop comes to every registered task once.  A task that is due leaves its wait
list, is READY without a reason and an object, and goes to the end of its ring.
The lists are edited while the loop goes on; a BLOCKED task that is still to come
is on the list that its own fields name, and in no ring, all the time.
-/

import MicrokernelRtos.Runs.Atomic

namespace MicrokernelRtos

open Linked Transition

/-- The tasks of the list that are BLOCKED are in no ring, and on the wait list of
their object, or on none if they delay. -/
structure SleepersListed (kernel : Kernel) (rings : Bucket → List Addr)
    (waits : WaitId → List Addr) (items : List Addr) : Prop where
  formed : kernel.ListsFormed rings waits
  distinct : items.Nodup
  bounded : ∀ t ∈ items, t < kernel.config.poolSize
  unringed : ∀ t ∈ items, kernel.state t = .blocked → ∀ bucket, t ∉ rings bucket
  listed : ∀ t ∈ items, kernel.state t = .blocked →
    (kernel.blockReason t = .delay ∧ ∀ list, t ∉ waits list) ∨
      ∃ list, waitId (kernel.blockReason t) (kernel.blockObject t) = some list ∧ t ∈ waits list

/-- A registered task, not idle, that is BLOCKED until now or earlier. -/
def DueNow (kernel : Kernel) (t : Addr) : Prop :=
  t ∈ kernel.taskRegistry ∧ some t ≠ kernel.idleTcb ∧ kernel.state t = .blocked ∧
    kernel.wakeTime t ≠ uint32Max ∧ kernel.wakeTime t ≤ kernel.tickCount

instance (kernel : Kernel) (t : Addr) : Decidable (DueNow kernel t) :=
  inferInstanceAs (Decidable (_ ∧ _))

/-- The fields of a task that has been woken by the tick.  The end of a delay is no
timeout. -/
structure TimedOut (before after : Core) (t : Addr) : Prop where
  ready : after.state t = .ready
  reason : after.blockReason t = .none
  object : after.blockObject t = none
  status : before.blockReason t ≠ .delay → after.blockWakeStatus t = .errTimeout
  delayed : before.blockReason t = .delay → after.blockWakeStatus t = before.blockWakeStatus t

/-- Exactly the tasks that are due have been woken. -/
structure DueWoken (kernel result : Kernel) (rings : Bucket → List Addr)
    (waits : WaitId → List Addr) : Prop where
  woken : ∀ t, DueNow kernel t → TimedOut kernel.toCore result.toCore t
  others : ∀ t, ¬ DueNow kernel t → result.state t = kernel.state t ∧
    result.blockReason t = kernel.blockReason t ∧ result.blockObject t = kernel.blockObject t ∧
    result.blockWakeStatus t = kernel.blockWakeStatus t
  wakeTime : result.wakeTime = kernel.wakeTime
  priority : result.priority = kernel.priority
  basePriority : result.basePriority = kernel.basePriority
  bucket : result.prioBucket = kernel.prioBucket
  ringLists : result.RingsAre fun bucket => rings bucket ++ kernel.taskRegistry.filter fun t =>
    decide (DueNow kernel t ∧ kernel.prioBucket t = bucket)
  waitLists : result.WaitsAre fun list => (waits list).filter fun t => !decide (DueNow kernel t)

variable {kernel result : Kernel} {rings : Bucket → List Addr} {waits : WaitId → List Addr}
variable {items rest : List Addr} {t first : Addr} {now : Nat}

/-! ### One task -/

theorem SleepersListed.reason_ne (sleeping : SleepersListed kernel rings waits items)
    (member : t ∈ items) (blocked : kernel.state t = .blocked) :
    kernel.blockReason t ≠ .none := by
  intro noReason
  rcases sleeping.listed t member blocked with ⟨delays, _⟩ | ⟨list, named, _⟩
  · rw [noReason] at delays
    cases delays
  · rw [noReason] at named
    cases named

theorem SleepersListed.unlink (sleeping : SleepersListed kernel rings waits items)
    (member : t ∈ items) (blocked : kernel.state t = .blocked) :
    ∃ unlinked, unlinkBlocked kernel t = some unlinked ∧
      unlinked.WaitsAre (removeWaiter waits t) := by
  have lists := sleeping.formed.waitLists
  unfold unlinkBlocked
  rcases sleeping.listed t member blocked with ⟨delays, absent⟩ | ⟨list, named, inside⟩
  · rw [delays, removeWaiter_of_notMem absent]
    exact ⟨kernel, rfl, lists⟩
  · obtain ⟨unlinked, removal, left⟩ := @tcbUnlink_spec kernel waits list t lists
      (lists.length_le sleeping.formed.waiting list)
    rw [update_erase_eq fun target other => lists.apart target list t other inside] at left
    rw [named]
    exact ⟨unlinked, removal, left⟩

theorem timeoutFields_status (reason : BlockReason) (kernel : Kernel) (t : Addr)
    (hasReason : reason ≠ .none) (notDelay : reason ≠ .delay) :
    (timeoutFields reason kernel t).blockWakeStatus t = .errTimeout := by
  cases reason with
  | none => exact absurd rfl hasReason
  | delay => exact absurd rfl notDelay
  | mutex => exact Function.update_self t _ _
  | semaphore => exact Function.update_self t _ _
  | msgSend => exact Function.update_self t _ _
  | msgRecv => exact Function.update_self t _ _

/-- The turn of the loop for a task that expires. -/
theorem SleepersListed.wake (sleeping : SleepersListed kernel rings waits items)
    (member : t ∈ items) (expires : Expires kernel now t) :
    ∃ woken, wakeIfDue kernel now t = some woken ∧
      woken.RingsAre (Function.update rings (kernel.prioBucket t)
        (rings (kernel.prioBucket t) ++ [t])) ∧
      woken.WaitsAre (removeWaiter waits t) ∧ TimedOut kernel.toCore woken.toCore t := by
  obtain ⟨unlinked, removal, left⟩ := sleeping.unlink member expires.blocked
  have frame := unlinkBlocked_onlyWaits removal
  obtain ⟨status, onMutex, written, _⟩ := timeoutFields_core (kernel.blockReason t) unlinked t
  rw [frame.core] at written
  have links := timeoutFields_links (kernel.blockReason t) unlinked t
  have fieldsRings : (timeoutFields (kernel.blockReason t) unlinked t).RingsAre rings := by
    have unlinkedRings := frame.ringsAre sleeping.formed.ringLists
    constructor
    · rw [links]
      exact unlinkedRings.family
    · rw [timeoutFields_addCalls]
      exact unlinkedRings.fresh
  have bucket : (timeoutFields (kernel.blockReason t) unlinked t).prioBucket =
      kernel.prioBucket := by
    rw [written]
  have limit : (timeoutFields (kernel.blockReason t) unlinked t).walkLimit = kernel.walkLimit := by
    unfold Kernel.walkLimit
    rw [written]
  obtain ⟨woken, ready, wokenFrame, ringed⟩ := @makeReady_spec _ rings t fieldsRings
    (by
      rw [limit]
      exact sleeping.formed.ringLists.length_le sleeping.formed.ringed _)
    (sleeping.unringed t member expires.blocked)
  rw [bucket] at ringed
  refine ⟨woken, ?_, ringed, ?_, ?_⟩
  · rw [wakeIfDue_eq expires.1 expires.2, removal, Option.bind_some, ready]
  · refine wokenFrame.waitsAre ?_
    unfold Kernel.WaitsAre
    rw [show (readyFields (timeoutFields (kernel.blockReason t) unlinked t) t).toLinks =
      unlinked.toLinks from links]
    exact left
  · rw [wokenFrame.core]
    refine ⟨Function.update_self t _ _, Function.update_self t _ _, Function.update_self t _ _,
      timeoutFields_status _ _ _ expires.2, fun delays => ?_⟩
    have kept : unlinked.blockWakeStatus = kernel.blockWakeStatus :=
      congrArg Core.blockWakeStatus frame.core
    rw [delays, ← kept]
    rfl

/-! ### The loop -/

theorem SleepersListed.tail (sleeping : SleepersListed kernel rings waits (first :: rest)) :
    SleepersListed kernel rings waits rest :=
  ⟨sleeping.formed, (List.nodup_cons.mp sleeping.distinct).2,
    fun t member => sleeping.bounded t (List.mem_cons_of_mem first member),
    fun t member => sleeping.unringed t (List.mem_cons_of_mem first member),
    fun t member => sleeping.listed t (List.mem_cons_of_mem first member)⟩

/-- The tasks that are still to come are where they were. -/
theorem SleepersListed.after_wake {woken : Kernel}
    (sleeping : SleepersListed kernel rings waits (first :: rest))
    (wakes : Wakes kernel.toCore woken.toCore fun item => item = first ∧ Expires kernel now first)
    (ringed : woken.RingsAre (Function.update rings (kernel.prioBucket first)
      (rings (kernel.prioBucket first) ++ [first])))
    (left : woken.WaitsAre (removeWaiter waits first)) :
    SleepersListed woken (Function.update rings (kernel.prioBucket first)
      (rings (kernel.prioBucket first) ++ [first])) (removeWaiter waits first) rest := by
  have apart : ∀ t ∈ rest, t ≠ first := by
    rintro t member rfl
    exact (List.nodup_cons.mp sleeping.distinct).1 member
  have asleep : ∀ t ∈ rest, ¬ (t = first ∧ Expires kernel now first) :=
    fun t member both => apart t member both.1
  have config : woken.config = kernel.config := by rw [wakes.fields]
  have inRing : ∀ bucket t, t ∈ Function.update rings (kernel.prioBucket first)
      (rings (kernel.prioBucket first) ++ [first]) bucket → t ∈ rings bucket ∨ t = first := by
    intro bucket t member
    by_cases same : bucket = kernel.prioBucket first
    · subst bucket
      rw [Function.update_self] at member
      simpa using member
    · rw [Function.update_of_ne same] at member
      exact Or.inl member
  refine ⟨⟨ringed, left, ?_, ?_⟩, (List.nodup_cons.mp sleeping.distinct).2, ?_, ?_, ?_⟩
  · intro bucket t member
    rw [config]
    rcases inRing bucket t member with old | isFirst
    · exact sleeping.formed.ringed bucket t old
    · rw [isFirst]
      exact sleeping.bounded first List.mem_cons_self
  · intro list t member
    rw [config]
    exact sleeping.formed.waiting list t (List.mem_of_mem_erase member)
  · intro t member
    rw [config]
    exact sleeping.bounded t (List.mem_cons_of_mem first member)
  · intro t member blocked bucket inside
    rw [wakes.state t (asleep t member)] at blocked
    rcases inRing bucket t inside with old | isFirst
    · exact sleeping.unringed t (List.mem_cons_of_mem first member) blocked bucket old
    · exact apart t member isFirst
  · intro t member blocked
    rw [wakes.state t (asleep t member)] at blocked
    rw [wakes.reason t (asleep t member), wakes.object t (asleep t member)]
    rcases sleeping.listed t (List.mem_cons_of_mem first member) blocked with
      ⟨delays, absent⟩ | ⟨list, named, inside⟩
    · exact Or.inl ⟨delays, fun list member => absent list (List.mem_of_mem_erase member)⟩
    · exact Or.inr ⟨list, named, (List.mem_erase_of_ne (apart t member)).mpr inside⟩

def expiredInto (kernel : Kernel) (now : Nat) (items : List Addr) (bucket : Bucket) : List Addr :=
  items.filter fun t => decide (Expires kernel now t ∧ kernel.prioBucket t = bucket)

theorem expiredInto_cons {woken : Kernel} (outside : first ∉ rest)
    (expires : Expires kernel now first)
    (wakes : Wakes kernel.toCore woken.toCore fun item => item = first ∧ Expires kernel now first)
    (bucket : Bucket) :
    expiredInto kernel now (first :: rest) bucket =
      (if kernel.prioBucket first = bucket then [first] else []) ++
        expiredInto woken now rest bucket := by
  have buckets : woken.prioBucket = kernel.prioBucket := by rw [wakes.fields]
  have later : expiredInto woken now rest bucket = expiredInto kernel now rest bucket := by
    refine List.filter_congr fun t member => ?_
    have different : t ≠ first := by
      rintro rfl
      exact outside member
    simp [wakes.isDue_iff, buckets, different]
  rw [later]
  unfold expiredInto
  by_cases same : kernel.prioBucket first = bucket
  · simp [expires, same]
  · simp [same]

theorem TimedOut.stays {before after last : Core} {woken : Addr → Prop}
    (timedOut : TimedOut before after t) (wakes : Wakes after last woken) (isNot : ¬ woken t) :
    TimedOut before last t := by
  refine ⟨?_, ?_, ?_, fun notDelay => ?_, fun delays => ?_⟩
  · rw [wakes.state t isNot, timedOut.ready]
  · rw [wakes.reason t isNot, timedOut.reason]
  · rw [wakes.object t isNot, timedOut.object]
  · rw [wakes.status t isNot, timedOut.status notDelay]
  · rw [wakes.status t isNot, timedOut.delayed delays]

theorem SleepersListed.loop (sleeping : SleepersListed kernel rings waits items) :
    ∃ result, wakeLoop now items kernel = some result ∧
      result.RingsAre (fun bucket => rings bucket ++ expiredInto kernel now items bucket) ∧
      result.WaitsAre (withoutExpired kernel now items waits) ∧
      ∀ t ∈ items, Expires kernel now t → TimedOut kernel.toCore result.toCore t := by
  induction items generalizing kernel rings waits with
  | nil =>
      refine ⟨kernel, rfl, ?_, ?_, by simp⟩
      · simpa [expiredInto] using sleeping.formed.ringLists
      · have same : withoutExpired kernel now [] waits = waits := by
          funext list
          simp [withoutExpired]
        rw [same]
        exact sleeping.formed.waitLists
  | cons first rest ih =>
      have outside : first ∉ rest := (List.nodup_cons.mp sleeping.distinct).1
      by_cases expires : Expires kernel now first
      · obtain ⟨woken, wake, ringed, left, timedOut⟩ :=
          sleeping.wake List.mem_cons_self expires
        have wakes := wakeIfDue_wakes wake
        obtain ⟨result, returned, lists, waitLists, later⟩ :=
          ih (sleeping.after_wake wakes ringed left)
        have others := wakeLoop_wakes returned
        refine ⟨result, by rw [wakeLoop, wake, Option.bind_some, returned], ?_, ?_, ?_⟩
        · have same :
              (fun bucket => rings bucket ++ expiredInto kernel now (first :: rest) bucket) =
              fun bucket => Function.update rings (kernel.prioBucket first)
                (rings (kernel.prioBucket first) ++ [first]) bucket ++
                  expiredInto woken now rest bucket := by
            funext bucket
            rw [expiredInto_cons outside expires wakes]
            by_cases isBucket : kernel.prioBucket first = bucket
            · rw [if_pos isBucket, ← isBucket, Function.update_self, List.append_assoc]
            · rw [if_neg isBucket, Function.update_of_ne (Ne.symm isBucket), List.nil_append]
          rw [same]
          exact lists
        · rw [← withoutExpired_cons (fun list => (sleeping.formed.waitLists.queue list).distinct)
            expires wakes]
          exact waitLists
        · intro t member isExpired
          by_cases isFirst : t = first
          · subst t
            exact timedOut.stays others fun both => outside both.1
          · have behind : t ∈ rest := by simpa [isFirst] using member
            have asleep : ¬ (t = first ∧ Expires kernel now first) := fun both => isFirst both.1
            have last := later t behind ((wakes.isDue_iff t).mpr ⟨isExpired, asleep⟩)
            have reason := wakes.reason t asleep
            refine ⟨last.ready, last.reason, last.object, fun notDelay => ?_, fun delays => ?_⟩
            · apply last.status
              rw [reason]
              exact notDelay
            · rw [last.delayed (reason.trans delays), wakes.status t asleep]
      · obtain ⟨result, returned, lists, waitLists, later⟩ := ih sleeping.tail
        refine ⟨result, by rw [wakeLoop, wakeIfDue_of_not expires, Option.bind_some, returned],
          ?_, ?_, ?_⟩
        · simpa [expiredInto, expires] using lists
        · rw [← withoutExpired_skip expires]
          exact waitLists
        · intro t member isExpired
          rcases List.mem_cons.mp member with rfl | behind
          · exact absurd isExpired expires
          · exact later t behind isExpired

theorem SleepersListed.expires_iff
    (sleeping : SleepersListed kernel rings waits kernel.taskRegistry) (t : Addr) :
    t ∈ kernel.taskRegistry ∧ Expires kernel kernel.tickCount t ↔ DueNow kernel t := by
  refine and_congr_right fun live => ?_
  simp only [Expires, isDue, Bool.and_eq_true, decide_eq_true_eq, and_assoc]
  refine and_congr_right fun _ => and_congr_right fun blocked => and_congr_right fun _ => ?_
  exact and_iff_left (sleeping.reason_ne live blocked)

/-- A tick wakes exactly the tasks that are due. -/
theorem rtosWakeDelayed_wakes_due (kernel : Kernel) (rings : Bucket → List Addr)
    (waits : WaitId → List Addr)
    (sleeping : SleepersListed kernel rings waits kernel.taskRegistry) :
    ∃ result, rtosWakeDelayed kernel = some result ∧ DueWoken kernel result rings waits := by
  have dueIff := sleeping.expires_iff
  obtain ⟨result, returned, ringed, left, timedOut⟩ :=
    @SleepersListed.loop kernel rings waits kernel.taskRegistry kernel.tickCount sleeping
  have wakes := wakeLoop_wakes returned
  have asleep : ∀ t, ¬ DueNow kernel t →
      ¬ (t ∈ kernel.taskRegistry ∧ Expires kernel kernel.tickCount t) :=
    fun t notDue both => notDue ((dueIff t).mp both)
  refine ⟨result, returned, ?_, ?_, ?_, ?_, ?_, ?_, ?_, ?_⟩
  · intro t due
    obtain ⟨live, expires⟩ := (dueIff t).mpr due
    exact timedOut t live expires
  · intro t notDue
    exact ⟨wakes.state t (asleep t notDue), wakes.reason t (asleep t notDue),
      wakes.object t (asleep t notDue), wakes.status t (asleep t notDue)⟩
  · rw [wakes.fields]
  · rw [wakes.fields]
  · rw [wakes.fields]
  · rw [wakes.fields]
  · have same : (fun bucket => rings bucket ++ expiredInto kernel kernel.tickCount
        kernel.taskRegistry bucket) = fun bucket => rings bucket ++
          kernel.taskRegistry.filter fun t =>
            decide (DueNow kernel t ∧ kernel.prioBucket t = bucket) := by
      funext bucket
      congr 1
      refine List.filter_congr fun t live => ?_
      simp [← dueIff t, live]
    rw [← same]
    exact ringed
  · have same : withoutExpired kernel kernel.tickCount kernel.taskRegistry waits =
        fun list => (waits list).filter fun t => !decide (DueNow kernel t) := by
      funext list
      refine List.filter_congr fun t _ => ?_
      simp [← dueIff t]
    rw [← same]
    exact left

/-- In the runs it is enough that a BLOCKED task delays or names a list. -/
theorem Coherent.sleepersListed (coherent : Coherent kernel noWindow)
    (named : ∀ t ∈ kernel.taskRegistry, kernel.state t = .blocked →
      kernel.blockReason t = .delay ∨
        waitId (kernel.blockReason t) (kernel.blockObject t) ≠ none) :
    ∃ rings waits, SleepersListed kernel rings waits kernel.taskRegistry := by
  obtain ⟨⟨rings, ringed⟩, waits, waiting⟩ := coherent
  have registry := waiting.registry
  refine ⟨rings, waits, ⟨ringed.lists, waiting.lists, ?_, ?_⟩, registry.distinct,
    registry.bounded, fun t _ blocked => ringed.notMem blocked, ?_⟩
  · exact fun bucket t member =>
      registry.bounded t ((ringed.shape.member bucket t).mp member).1
  · exact fun list t member => registry.bounded t ((waiting.shape.member list t).mp member).1
  · intro t live blocked
    cases isList : waitId (kernel.blockReason t) (kernel.blockObject t) with
    | none =>
        have delays := (named t live blocked).resolve_right fun some => some isList
        exact Or.inl ⟨delays, waiting.onNone blocked isList⟩
    | some list =>
        exact Or.inr ⟨list, rfl, (waiting.shape.member list t).mpr
          ⟨live, Or.inl ⟨blocked, isList⟩⟩⟩

theorem rtosWakeDelayed_wakes_two :
    ∃ kernel rings waits result, SleepersListed kernel rings waits kernel.taskRegistry ∧
      DueNow kernel 1 ∧ DueNow kernel 2 ∧ kernel.blockReason 1 = .delay ∧
      kernel.waitHead (.semaphore 0) = some 2 ∧
      rtosWakeDelayed kernel = some result ∧ DueWoken kernel result rings waits := by
  obtain ⟨s, reached, found⟩ :=
    @exists_reachable_of_run System Action Started step UnlockKeepsBucket
      (fun s a => decide (UnlockKeepsBucket s a))
      (fun s => decide ((∀ t ∈ s.kernel.taskRegistry, s.kernel.state t = .blocked →
          s.kernel.blockReason t = .delay ∨
            waitId (s.kernel.blockReason t) (s.kernel.blockObject t) ≠ none) ∧
        DueNow (rtosTickIncrement s.kernel) 1 ∧ DueNow (rtosTickIncrement s.kernel) 2 ∧
        s.kernel.blockReason 1 = .delay ∧ s.kernel.waitHead (.semaphore 0) = some 2))
      (fun _ _ checked => of_decide_eq_true checked)
      [.create (some 0) 10 256 (some 1) (some 0), .create (some 0) 10 256 (some 2) (some 0),
        .getNext, .call (.delay 1), .getNext, .call (.wait 0 1), .getNext]
      startedSystem started_startedSystem (by decide +kernel)
  obtain ⟨named, firstDue, secondDue, delays, waits⟩ := of_decide_eq_true found
  have holds : SystemCoherent s :=
    Reachable.systemCoherent (fun _ _ permitted => permitted) reached
  have ticked : Coherent (rtosTickIncrement s.kernel) noWindow :=
    holds.coherent.congr rfl rfl rfl rfl rfl rfl rfl rfl rfl rfl rfl
  obtain ⟨rings, lists, sleeping⟩ := ticked.sleepersListed named
  obtain ⟨result, returned, woken⟩ :=
    rtosWakeDelayed_wakes_due (rtosTickIncrement s.kernel) rings lists sleeping
  exact ⟨rtosTickIncrement s.kernel, rings, lists, result, sleeping, firstDue, secondDue, delays,
    waits, returned, woken⟩

end MicrokernelRtos
