/-
What the kernel structures mean for the tasks.

The registry names the live tasks.  A wait list holds the tasks that are blocked
on it and, between the region that enqueues a caller and the region that blocks
it, the caller itself; `window` records the callers in that position.  A ready
ring holds the live tasks of its bucket that are not blocked.

Each lemma of this file says what one kind of field write does to these
relations, without the pointers.
-/

import MicrokernelRtos.Task

namespace MicrokernelRtos

open Linked

/-! ### The relations -/

structure RegistryShape (core : Core) : Prop where
  distinct : core.taskRegistry.Nodup
  bounded : ∀ t ∈ core.taskRegistry, t < core.config.poolSize
  current : ∀ t, core.currentTcb = some t → t ∈ core.taskRegistry

/-- The task is blocked on the list, or on its way there. -/
def WaitsOn (core : Core) (window : Addr → Option WaitId) (t : Addr) (list : WaitId) : Prop :=
  (core.state t = .blocked ∧ waitId (core.blockReason t) (core.blockObject t) = some list) ∨
    window t = some list

structure WaitShape (core : Core) (waits : WaitId → List Addr)
    (window : Addr → Option WaitId) : Prop where
  member : ∀ list t, t ∈ waits list ↔ t ∈ core.taskRegistry ∧ WaitsOn core window t list
  onTheWay : ∀ t list, window t = some list → t ∈ core.taskRegistry ∧ core.state t ≠ .blocked

structure RingShape (core : Core) (rings : Bucket → List Addr) : Prop where
  member : ∀ bucket t, t ∈ rings bucket ↔
    t ∈ core.taskRegistry ∧ core.prioBucket t = bucket ∧ core.state t ≠ .blocked
  live : ∀ t ∈ core.taskRegistry,
    core.state t = .ready ∨ core.state t = .running ∨ core.state t = .blocked
  running : ∀ t ∈ core.taskRegistry, core.state t = .running → core.currentTcb = some t
  idle : ∃ idle ∈ core.taskRegistry, core.idleTcb = some idle ∧
    core.state idle ≠ .blocked ∧ core.prioBucket idle = lastBucket
  owner : ∀ m o, (core.mutex m).owner = some o →
    some o ≠ core.idleTcb ∧ (o ∈ core.taskRegistry ∨ core.state o = .terminated)

/-- No task is between its two regions. -/
def noWindow : Addr → Option WaitId := fun _ => none

/-- The wait lists, with their meaning. -/
structure WaitCoherent (kernel : Kernel) (waits : WaitId → List Addr)
    (window : Addr → Option WaitId) : Prop where
  lists : kernel.WaitsAre waits
  registry : RegistryShape kernel.toCore
  shape : WaitShape kernel.toCore waits window

/-- The ready rings, with their meaning. -/
structure RingCoherent (kernel : Kernel) (rings : Bucket → List Addr) : Prop where
  lists : kernel.RingsAre rings
  shape : RingShape kernel.toCore rings

/-! ### Lengths -/

theorem WaitCoherent.length_le {kernel : Kernel} {waits : WaitId → List Addr}
    {window : Addr → Option WaitId} (coherent : WaitCoherent kernel waits window)
    (list : WaitId) : (waits list).length ≤ kernel.walkLimit := by
  apply length_le_of_bounded (coherent.lists.queue list).distinct
  intro item member
  exact coherent.registry.bounded item ((coherent.shape.member list item).mp member).1

theorem RingCoherent.length_le {kernel : Kernel} {rings : Bucket → List Addr}
    (coherent : RingCoherent kernel rings) (registry : RegistryShape kernel.toCore)
    (bucket : Bucket) : (rings bucket).length ≤ kernel.walkLimit := by
  apply length_le_of_bounded (coherent.lists.family.ring bucket).distinct
  intro item member
  exact registry.bounded item ((coherent.shape.member bucket item).mp member).1

/-! ### Writes and the wait lists -/

section Waits

variable {kernel : Kernel} {core other : Core} {waits changed : WaitId → List Addr}
variable {window : Addr → Option WaitId} {t self : Addr} {list : WaitId}

theorem WaitShape.window_eq_none (shape : WaitShape core waits window)
    (blocked : core.state t = .blocked) : window t = none := by
  cases at_window : window t with
  | none => rfl
  | some target => exact absurd blocked (shape.onTheWay t target at_window).2

theorem WaitShape.notMem (shape : WaitShape core waits window)
    (awake : core.state t ≠ .blocked) (outside : window t = none) (list : WaitId) :
    t ∉ waits list := by
  intro member
  rcases ((shape.member list t).mp member).2 with waiting | onWay
  · exact awake waiting.1
  · rw [outside] at onWay
    cases onWay

theorem WaitShape.congr (shape : WaitShape core waits window)
    (registry : other.taskRegistry = core.taskRegistry) (state : other.state = core.state)
    (reason : other.blockReason = core.blockReason)
    (object : other.blockObject = core.blockObject) : WaitShape other waits window := by
  constructor
  · intro list t
    rw [shape.member, WaitsOn, WaitsOn, registry, state, reason, object]
  · intro t list onWay
    rw [registry, state]
    exact shape.onTheWay t list onWay

theorem WaitShape.of_blocked_iff (shape : WaitShape core waits window)
    (registry : other.taskRegistry = core.taskRegistry)
    (state : ∀ t, other.state t = .blocked ↔ core.state t = .blocked)
    (reason : other.blockReason = core.blockReason)
    (object : other.blockObject = core.blockObject) : WaitShape other waits window := by
  constructor
  · intro list t
    rw [shape.member, WaitsOn, WaitsOn, registry, state, reason, object]
  · intro t list onWay
    rw [registry, ne_eq, state]
    exact shape.onTheWay t list onWay

theorem WaitShape.ready (shape : WaitShape kernel.toCore waits window)
    (blocked : kernel.state t = .blocked)
    (removed : ∀ list item, item ∈ changed list ↔ item ∈ waits list ∧ item ≠ t) :
    WaitShape (readyFields kernel t).toCore changed window := by
  have outside := shape.window_eq_none blocked
  constructor
  · intro list item
    rw [removed, shape.member]
    by_cases same : item = t
    · subst item
      simp [readyFields, WaitsOn, outside]
    · simp [readyFields, WaitsOn, same]
  · intro item target onWay
    have different : item ≠ t := by
      rintro rfl
      rw [outside] at onWay
      cases onWay
    simpa [readyFields, different] using shape.onTheWay item target onWay

theorem WaitShape.enqueue (shape : WaitShape core waits window)
    (live : self ∈ core.taskRegistry) (awake : core.state self ≠ .blocked)
    (outside : window self = none)
    (added : ∀ target item, item ∈ changed target ↔
      item ∈ waits target ∨ (target = list ∧ item = self)) :
    WaitShape core changed (Function.update window self (some list)) := by
  constructor
  · intro target item
    rw [added, shape.member]
    by_cases same : item = self
    · subst item
      simp [WaitsOn, awake, outside, live, eq_comm]
    · simp [WaitsOn, same]
  · intro item target onWay
    by_cases same : item = self
    · subst item
      exact ⟨live, awake⟩
    · rw [Function.update_of_ne same] at onWay
      exact shape.onTheWay item target onWay

/-- The fields `rtos_block_current` writes first mean nothing for a task that is
not blocked. -/
theorem WaitShape.blockFields (shape : WaitShape kernel.toCore waits window)
    (awake : kernel.state self ≠ .blocked) (reason : BlockReason) (obj : Option Nat) :
    WaitShape (blockFields kernel self reason obj).toCore waits window := by
  refine ⟨?_, shape.onTheWay⟩
  intro list item
  rw [shape.member]
  by_cases same : item = self
  · subst item
    simp [MicrokernelRtos.blockFields, WaitsOn, awake]
  · simp [MicrokernelRtos.blockFields, WaitsOn, same]

theorem WaitShape.blockState (shape : WaitShape kernel.toCore waits window)
    (live : self ∈ kernel.taskRegistry) (awake : kernel.state self ≠ .blocked)
    (named : waitId (kernel.blockReason self) (kernel.blockObject self) = window self)
    (timeoutTicks : Nat) :
    WaitShape (blockState kernel self timeoutTicks).toCore waits
      (Function.update window self none) := by
  constructor
  · intro list item
    rw [shape.member]
    by_cases same : item = self
    · subst item
      simp [MicrokernelRtos.blockState, WaitsOn, awake, named]
    · simp [MicrokernelRtos.blockState, WaitsOn, same]
  · intro item target onWay
    have different : item ≠ self := by
      rintro rfl
      rw [Function.update_self] at onWay
      cases onWay
    rw [Function.update_of_ne different] at onWay
    simpa [MicrokernelRtos.blockState, different] using shape.onTheWay item target onWay

theorem WaitShape.create (shape : WaitShape core waits window)
    (fresh : t ∉ core.taskRegistry) (registry : other.taskRegistry = core.taskRegistry ++ [t])
    (awake : other.state t ≠ .blocked)
    (state : ∀ item, item ≠ t → other.state item = core.state item)
    (reason : ∀ item, item ≠ t → other.blockReason item = core.blockReason item)
    (object : ∀ item, item ≠ t → other.blockObject item = core.blockObject item) :
    WaitShape other waits window := by
  have outside : ∀ list, window t ≠ some list := fun list onWay =>
    fresh (shape.onTheWay t list onWay).1
  constructor
  · intro list item
    rw [shape.member, registry]
    by_cases same : item = t
    · subst item
      simp [WaitsOn, fresh, awake, outside]
    · simp [WaitsOn, same, state item same, reason item same, object item same]
  · intro item list onWay
    have different : item ≠ t := by
      rintro rfl
      exact outside list onWay
    rw [registry, state item different]
    exact ⟨List.mem_append_left _ (shape.onTheWay item list onWay).1,
      (shape.onTheWay item list onWay).2⟩

theorem WaitShape.delete (shape : WaitShape core waits window)
    (distinct : core.taskRegistry.Nodup) (outside : window t = none)
    (registry : other.taskRegistry = core.taskRegistry.erase t)
    (state : ∀ item, item ≠ t → other.state item = core.state item)
    (reason : ∀ item, item ≠ t → other.blockReason item = core.blockReason item)
    (object : ∀ item, item ≠ t → other.blockObject item = core.blockObject item)
    (removed : ∀ list item, item ∈ changed list ↔ item ∈ waits list ∧ item ≠ t) :
    WaitShape other changed window := by
  constructor
  · intro list item
    rw [removed, shape.member, registry, distinct.mem_erase_iff]
    by_cases same : item = t
    · simp [same]
    · simp [WaitsOn, same, state item same, reason item same, object item same]
  · intro item list onWay
    have different : item ≠ t := by
      rintro rfl
      rw [outside] at onWay
      cases onWay
    rw [registry, distinct.mem_erase_iff, state item different]
    exact ⟨⟨different, (shape.onTheWay item list onWay).1⟩, (shape.onTheWay item list onWay).2⟩

end Waits

/-! ### Writes and the ready rings -/

section Rings

variable {kernel : Kernel} {core other : Core} {rings changed : Bucket → List Addr}
variable {t self : Addr}

theorem RingShape.congr (shape : RingShape core rings)
    (registry : other.taskRegistry = core.taskRegistry) (state : other.state = core.state)
    (bucket : other.prioBucket = core.prioBucket) (current : other.currentTcb = core.currentTcb)
    (idle : other.idleTcb = core.idleTcb)
    (owner : ∀ m o, (other.mutex m).owner = some o →
      some o ≠ core.idleTcb ∧ (o ∈ core.taskRegistry ∨ core.state o = .terminated)) :
    RingShape other rings := by
  constructor
  · intro index item
    rw [shape.member, registry, state, bucket]
  · rw [registry, state]
    exact shape.live
  · rw [registry, state, current]
    exact shape.running
  · rw [registry, state, bucket, idle]
    exact shape.idle
  · rw [registry, state, idle]
    exact owner

theorem RingShape.ready (shape : RingShape kernel.toCore rings)
    (live : t ∈ kernel.taskRegistry) (blocked : kernel.state t = .blocked) :
    RingShape (readyFields kernel t).toCore
      (Function.update rings (kernel.prioBucket t) (rings (kernel.prioBucket t) ++ [t])) := by
  have states : ∀ item, item ≠ t → (readyFields kernel t).state item = kernel.state item :=
    fun item different => Function.update_of_ne different _ _
  have atTask : (readyFields kernel t).state t = .ready := Function.update_self _ _ _
  constructor
  · intro bucket item
    have mixed : item ∈ Function.update rings (kernel.prioBucket t)
        (rings (kernel.prioBucket t) ++ [t]) bucket ↔
        item ∈ rings bucket ∨ (kernel.prioBucket t = bucket ∧ item = t) := by
      by_cases same : bucket = kernel.prioBucket t
      · subst bucket
        simp
      · simp [Function.update_of_ne same, Ne.symm same]
    rw [mixed, shape.member]
    by_cases same : item = t
    · subst item
      rw [atTask]
      simp [readyFields, blocked, live]
    · rw [states item same]
      simp [readyFields, same]
  · intro item member
    by_cases same : item = t
    · subst item
      exact Or.inl atTask
    · rw [states item same]
      exact shape.live item member
  · intro item member runs
    have different : item ≠ t := by
      rintro rfl
      rw [atTask] at runs
      cases runs
    rw [states item different] at runs
    exact shape.running item member runs
  · obtain ⟨idle, member, isIdle, awake, bucket⟩ := shape.idle
    have different : idle ≠ t := by
      rintro rfl
      exact awake blocked
    exact ⟨idle, member, isIdle, by rw [states idle different]; exact awake, bucket⟩
  · intro m o owns
    refine ⟨(shape.owner m o owns).1, (shape.owner m o owns).2.imp_right fun dead => ?_⟩
    have different : o ≠ t := by
      rintro rfl
      have clash : TaskState.terminated = TaskState.blocked := dead.symm.trans blocked
      cases clash
    rw [states o different]
    exact dead

theorem RingShape.block (shape : RingShape kernel.toCore rings)
    (live : self ∈ kernel.taskRegistry) (notIdle : some self ≠ kernel.idleTcb)
    (timeoutTicks : Nat)
    (removed : ∀ bucket item, item ∈ changed bucket ↔ item ∈ rings bucket ∧ item ≠ self) :
    RingShape (schedulerMarkReschedule (blockState kernel self timeoutTicks)).toCore changed := by
  have states : ∀ item, item ≠ self →
      (blockState kernel self timeoutTicks).state item = kernel.state item :=
    fun item different => Function.update_of_ne different _ _
  have atSelf : (blockState kernel self timeoutTicks).state self = .blocked :=
    Function.update_self _ _ _
  constructor
  · intro bucket item
    rw [removed, shape.member]
    by_cases same : item = self
    · subst item
      simp [schedulerMarkReschedule, atSelf]
    · simp [schedulerMarkReschedule, blockState, same]
  · intro item member
    by_cases same : item = self
    · subst item
      exact Or.inr (Or.inr atSelf)
    · have kept : (schedulerMarkReschedule (blockState kernel self timeoutTicks)).state item =
          kernel.state item := states item same
      rw [kept]
      exact shape.live item member
  · intro item member runs
    have different : item ≠ self := by
      rintro rfl
      have clash : TaskState.blocked = TaskState.running := atSelf.symm.trans runs
      cases clash
    exact shape.running item member ((states item different).symm.trans runs)
  · obtain ⟨idle, member, isIdle, awake, bucket⟩ := shape.idle
    have different : idle ≠ self := by
      rintro rfl
      exact notIdle isIdle.symm
    exact ⟨idle, member, isIdle, fun blocked => awake ((states idle different).symm.trans blocked),
      bucket⟩
  · intro m o owns
    refine ⟨(shape.owner m o owns).1, ?_⟩
    by_cases same : o = self
    · subst o
      exact Or.inl live
    · exact (shape.owner m o owns).2.imp_right fun dead => (states o same).trans dead

theorem RingShape.rebucket (shape : RingShape core rings) {newBucket : Bucket}
    (notIdle : some t ≠ core.idleTcb)
    (registry : other.taskRegistry = core.taskRegistry) (state : other.state = core.state)
    (bucket : other.prioBucket = Function.update core.prioBucket t newBucket)
    (current : other.currentTcb = core.currentTcb) (idle : other.idleTcb = core.idleTcb)
    (mutex : other.mutex = core.mutex)
    (moved : ∀ index item, item ∈ changed index ↔ (item ≠ t ∧ item ∈ rings index) ∨
      (item = t ∧ newBucket = index ∧ t ∈ core.taskRegistry ∧ core.state t ≠ .blocked)) :
    RingShape other changed := by
  constructor
  · intro index item
    rw [moved, shape.member, registry, state, bucket]
    by_cases same : item = t
    · subst item
      simp [and_left_comm]
    · simp [same]
  · rw [registry, state]
    exact shape.live
  · rw [registry, state, current]
    exact shape.running
  · obtain ⟨idleTask, member, isIdle, awake, seventh⟩ := shape.idle
    have different : idleTask ≠ t := by
      rintro rfl
      exact notIdle isIdle.symm
    rw [registry, state, bucket, idle]
    exact ⟨idleTask, member, isIdle, awake, by rw [Function.update_of_ne different]; exact seventh⟩
  · rw [registry, state, idle, mutex]
    exact shape.owner

theorem preemptCurrent_state (kernel : Kernel) (item : Addr) :
    (preemptCurrent kernel).state item =
      if kernel.currentTcb = some item ∧ kernel.state item = .running then .ready
      else kernel.state item := by
  unfold preemptCurrent
  split
  · rename_i nobody
    simp [nobody]
  · rename_i prev isCurrent
    rw [isCurrent]
    split
    · rename_i runs
      by_cases same : item = prev
      · subst item
        simp [runs]
      · simp [same, Ne.symm same]
    · rename_i stopped
      by_cases same : item = prev
      · subst item
        simp [stopped]
      · simp [Ne.symm same]

theorem select_core (kernel : Kernel) (sel : Addr) :
    ∃ state counter, (dispatch (preemptCurrent kernel) sel).toCore =
      { kernel.toCore with
        state := state, timeSliceCounter := counter, currentTcb := some sel } := by
  unfold preemptCurrent
  split
  · exact ⟨_, _, rfl⟩
  · split <;> exact ⟨_, _, rfl⟩

theorem select_blocked_iff {sel : Addr} (awake : kernel.state sel ≠ .blocked) (item : Addr) :
    (dispatch (preemptCurrent kernel) sel).state item = .blocked ↔
      kernel.state item = .blocked := by
  by_cases same : item = sel
  · subst item
    simp [dispatch, awake]
  · simp only [dispatch, Function.update_of_ne same, preemptCurrent_state]
    split
    · rename_i runs
      simp [runs.2]
    · rfl

theorem RingShape.select {sel : Addr} (shape : RingShape kernel.toCore rings)
    (live : sel ∈ kernel.taskRegistry) (awake : kernel.state sel ≠ .blocked)
    (turned : ∀ bucket item, item ∈ changed bucket ↔ item ∈ rings bucket) :
    RingShape (dispatch (preemptCurrent kernel) sel).toCore changed := by
  obtain ⟨state, counter, fields⟩ := select_core kernel sel
  have registry : (dispatch (preemptCurrent kernel) sel).taskRegistry = kernel.taskRegistry := by
    rw [fields]
  have buckets : (dispatch (preemptCurrent kernel) sel).prioBucket = kernel.prioBucket := by
    rw [fields]
  have idleIs : (dispatch (preemptCurrent kernel) sel).idleTcb = kernel.idleTcb := by
    rw [fields]
  have mutexes : (dispatch (preemptCurrent kernel) sel).mutex = kernel.mutex := by
    rw [fields]
  have states : ∀ item, item ≠ sel → (dispatch (preemptCurrent kernel) sel).state item =
      (preemptCurrent kernel).state item :=
    fun item different => Function.update_of_ne different _ _
  constructor
  · intro bucket item
    rw [turned, shape.member, registry, buckets, ne_eq, ne_eq, select_blocked_iff awake]
  · intro item member
    rw [registry] at member
    by_cases same : item = sel
    · subst item
      exact Or.inr (Or.inl (Function.update_self _ _ _))
    · rw [states item same, preemptCurrent_state]
      split
      · exact Or.inl rfl
      · exact shape.live item member
  · intro item member runs
    rw [registry] at member
    by_cases same : item = sel
    · subst item
      rfl
    · rw [states item same, preemptCurrent_state] at runs
      split at runs
      · cases runs
      · rename_i stopped
        exact absurd ⟨shape.running item member runs, runs⟩ stopped
  · obtain ⟨idle, member, isIdle, idleAwake, bucket⟩ := shape.idle
    refine ⟨idle, registry ▸ member, idleIs ▸ isIdle, ?_, by rw [buckets]; exact bucket⟩
    rw [ne_eq, select_blocked_iff awake]
    exact idleAwake
  · intro m o owns
    rw [mutexes] at owns
    rw [idleIs, registry]
    refine ⟨(shape.owner m o owns).1, ?_⟩
    by_cases same : o = sel
    · subst o
      exact Or.inl live
    · refine (shape.owner m o owns).2.imp_right fun dead => ?_
      rw [states o same, preemptCurrent_state, if_neg]
      · exact dead
      · rintro ⟨_, runs⟩
        have clash : TaskState.terminated = TaskState.running := dead.symm.trans runs
        cases clash

theorem RingShape.create (shape : RingShape core rings) (fresh : t ∉ core.taskRegistry)
    (notIdle : some t ≠ core.idleTcb)
    (registry : other.taskRegistry = core.taskRegistry ++ [t])
    (ready : other.state t = .ready)
    (state : ∀ item, item ≠ t → other.state item = core.state item)
    (bucket : ∀ item, item ≠ t → other.prioBucket item = core.prioBucket item)
    (current : other.currentTcb = core.currentTcb) (idle : other.idleTcb = core.idleTcb)
    (mutex : other.mutex = core.mutex)
    (added : ∀ index item, item ∈ changed index ↔
      item ∈ rings index ∨ (other.prioBucket t = index ∧ item = t)) :
    RingShape other changed := by
  constructor
  · intro index item
    rw [added, shape.member, registry]
    by_cases same : item = t
    · subst item
      simp [fresh, ready]
    · simp [same, state item same, bucket item same]
  · intro item member
    by_cases same : item = t
    · subst item
      exact Or.inl ready
    · rw [registry, List.mem_append, List.mem_singleton] at member
      rw [state item same]
      exact shape.live item (member.resolve_right same)
  · intro item member runs
    have different : item ≠ t := by
      rintro rfl
      rw [ready] at runs
      cases runs
    rw [registry, List.mem_append, List.mem_singleton] at member
    rw [state item different] at runs
    rw [current]
    exact shape.running item (member.resolve_right different) runs
  · obtain ⟨idleTask, member, isIdle, awake, seventh⟩ := shape.idle
    have different : idleTask ≠ t := by
      rintro rfl
      exact notIdle isIdle.symm
    exact ⟨idleTask, registry ▸ List.mem_append_left _ member, idle.trans isIdle,
      by rw [state idleTask different]; exact awake,
      by rw [bucket idleTask different]; exact seventh⟩
  · intro m o owns
    rw [mutex] at owns
    rw [idle, registry]
    refine ⟨(shape.owner m o owns).1, ?_⟩
    by_cases same : o = t
    · exact Or.inl (by simp [same])
    · rw [state o same]
      exact (shape.owner m o owns).2.imp_left (List.mem_append_left _)

theorem RingShape.delete (shape : RingShape core rings) (distinct : core.taskRegistry.Nodup)
    (notIdle : some t ≠ core.idleTcb)
    (registry : other.taskRegistry = core.taskRegistry.erase t)
    (dead : other.state t = .terminated)
    (state : ∀ item, item ≠ t → other.state item = core.state item)
    (bucket : other.prioBucket = core.prioBucket)
    (current : other.currentTcb = core.currentTcb) (idle : other.idleTcb = core.idleTcb)
    (mutex : other.mutex = core.mutex)
    (removed : ∀ index item, item ∈ changed index ↔ item ∈ rings index ∧ item ≠ t) :
    RingShape other changed := by
  have erased : ∀ item, item ∈ other.taskRegistry ↔ item ≠ t ∧ item ∈ core.taskRegistry := by
    intro item
    rw [registry, distinct.mem_erase_iff]
  constructor
  · intro index item
    rw [removed, shape.member, erased]
    by_cases same : item = t
    · simp [same]
    · simp [same, state item same, bucket]
  · intro item member
    obtain ⟨different, old⟩ := (erased item).mp member
    rw [state item different]
    exact shape.live item old
  · intro item member runs
    obtain ⟨different, old⟩ := (erased item).mp member
    rw [state item different] at runs
    rw [current]
    exact shape.running item old runs
  · obtain ⟨idleTask, member, isIdle, awake, seventh⟩ := shape.idle
    have different : idleTask ≠ t := by
      rintro rfl
      exact notIdle isIdle.symm
    exact ⟨idleTask, (erased idleTask).mpr ⟨different, member⟩, idle.trans isIdle,
      by rw [state idleTask different]; exact awake, by rw [bucket]; exact seventh⟩
  · intro m o owns
    rw [mutex] at owns
    rw [idle]
    refine ⟨(shape.owner m o owns).1, ?_⟩
    by_cases same : o = t
    · subst o
      exact Or.inr dead
    · rw [state o same]
      exact (shape.owner m o owns).2.imp_left fun member => (erased o).mpr ⟨same, member⟩

end Rings

end MicrokernelRtos
