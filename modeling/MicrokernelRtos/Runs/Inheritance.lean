/-
The mutexes implement priority inheritance of one level.

Runs are made of locks, unlocks, ticks, creations and deletions, each call up to
its block point.  What runs next is the task that `scheduler_get_next` selects, or
any other one, as long as it is not BLOCKED.  Every step of such a run is a step of
the abstract protocol, with the owner as the holder, the wait list as the waiters
and the priority as the level.
-/

import MicrokernelRtos.Library.PriorityInheritance
import MicrokernelRtos.Runs.Atomic

namespace MicrokernelRtos

open Linked Transition

variable {kernel result : Kernel} {system after : System} {action : Action}
variable {waits : WaitId → List Addr} {window : Addr → Option WaitId} {self t : Addr} {m : Nat}

def OnList (kernel : Kernel) (m : Nat) (t : Addr) : Prop :=
  Reaches kernel.mutexWaitNext (kernel.waitHead (.mutex m)) t

/-- What the protocol sees of the kernel. -/
def inheritanceView (kernel : Kernel) : Inheritance.State Addr Nat Nat where
  live := fun t => t ∈ kernel.taskRegistry
  holder := fun m => (kernel.mutex m).owner
  waiting := OnList kernel
  level := kernel.priority
  base := kernel.basePriority

def TimesOut (kernel : Kernel) (t : Addr) : Prop :=
  t ∈ kernel.taskRegistry ∧
    Expires (rtosTickIncrement kernel) (rtosTickIncrement kernel).tickCount t

/-- The events that an action of the system can come to. -/
inductive Performs (kernel : Kernel) : Action → Inheritance.Event Addr Nat → Prop where
  | rest (action : Action) : Performs kernel action .rest
  | take {self m ticks : Nat} (isCurrent : kernel.currentTcb = some self) :
      Performs kernel (.call (.lock m ticks)) (.take m self)
  | join {self m ticks : Nat} (isCurrent : kernel.currentTcb = some self)
      (foreign : (kernel.mutex m).owner ≠ some self) :
      Performs kernel (.call (.lock m ticks)) (.join m self)
  | drop {self m : Nat} (isCurrent : kernel.currentTcb = some self)
      (owns : ownsMutex kernel m self = true) : Performs kernel (.call (.unlock m)) (.drop m self)
  | leave : Performs kernel .sysTick (.leave (TimesOut kernel))
  | die (t : Addr) : Performs kernel (.delete t) (.die t)
  | born (taskFunc : Option Nat) (priority stackSize tcb : Nat) (stackBlock : Option Addr) :
      Performs kernel (.create taskFunc priority stackSize (some tcb) stackBlock) (.born tcb)

/-- Locks and unlocks are the only calls. -/
def inheritanceAction : Action → Bool
  | .call (.lock _ _) => true
  | .call (.unlock _) => true
  | .call _ => false
  | _ => true

/-- The scheduler selects a registered task that is not BLOCKED. -/
def SelectsAwake (system : System) : Action → Prop
  | .getNext => ∀ selected ∈ schedulerGetNext system.kernel,
      selected.1 ∈ system.kernel.taskRegistry ∧ system.kernel.state selected.1 ≠ .blocked
  | _ => True

instance (system : System) (action : Action) : Decidable (SelectsAwake system action) :=
  match action with
  | .getNext => inferInstanceAs (Decidable (∀ selected ∈ schedulerGetNext system.kernel,
      selected.1 ∈ system.kernel.taskRegistry ∧ system.kernel.state selected.1 ≠ .blocked))
  | .create _ _ _ _ _ => isTrue trivial
  | .delete _ => isTrue trivial
  | .call _ => isTrue trivial
  | .yield => isTrue trivial
  | .sysTick => isTrue trivial
  | .dispatch _ => isTrue trivial

theorem SystemCoherent.selectsAwake (holds : SystemCoherent system) (action : Action) :
    SelectsAwake system action := by
  cases action with
  | getNext =>
      rintro ⟨sel, next⟩ returned
      obtain ⟨member, awake, _⟩ := holds.selected returned
      exact ⟨member, awake⟩
  | _ => trivial

/-- As long as no unlock takes a RUNNING caller out of its bucket, only tasks that are
not BLOCKED are selected. -/
theorem Reachable.selectsAwake {allowed : System → Action → Prop}
    (keeps : ∀ s a, allowed s a → UnlockKeepsBucket s a)
    (reached : Reachable Started step allowed system) :
    Reachable Started step (fun s a => allowed s a ∧ SelectsAwake s a) system :=
  reached.mono_of_invariant SystemCoherent (fun _ started => started.systemCoherent)
    (fun _ _ _ holds permitted taken => step_keeps holds (keeps _ _ permitted) taken)
    fun _ a holds permitted => ⟨permitted, holds.selectsAwake a⟩

def LockedByOwner (mutex : Nat → Mutex) : Prop :=
  ∀ m, (mutex m).locked = true ↔ (mutex m).owner ≠ none

/-- What the simulation rests on: the wait lists and the fields of the mutexes
agree. -/
structure Tracks (system : System) (waits : WaitId → List Addr) : Prop
    extends LiveRegistry system where
  waiting : WaitCoherent system.kernel waits noWindow
  locked : LockedByOwner system.kernel.mutex
  held : ∀ m t, t ∈ waits (.mutex m) → (system.kernel.mutex m).owner ≠ none

def Simulated (system : System) (action : Action) (after : System) : Prop :=
  ∃ waits event, Tracks after waits ∧ Performs system.kernel action event ∧
    Inheritance.Step (inheritanceView system.kernel) (inheritanceView after.kernel) event

theorem onList_iff (waiting : WaitCoherent kernel waits window) (m : Nat) (t : Addr) :
    OnList kernel m t ↔ t ∈ waits (.mutex m) :=
  (waiting.lists.queue (.mutex m)).reaches_iff t

theorem onList_eq (before : WaitCoherent kernel waits window)
    (now : WaitCoherent result waits window) : OnList result = OnList kernel := by
  funext m t
  rw [onList_iff before, onList_iff now]

theorem Tracks.wellFormed (tracks : Tracks system waits) :
    Inheritance.WellFormed (inheritanceView system.kernel) := by
  constructor
  · intro m t isWaiter
    have member := (onList_iff tracks.waiting m t).mp isWaiter
    exact ((tracks.waiting.shape.member _ t).mp member).1
  · intro m other t isWaiter isOther
    have same := tracks.waiting.lists.apart _ _ t ((onList_iff tracks.waiting m t).mp isWaiter)
      ((onList_iff tracks.waiting other t).mp isOther)
    cases same
    rfl

theorem Tracks.offLists (tracks : Tracks system waits)
    (awake : system.kernel.state t ≠ .blocked) (m : Nat) : ¬ OnList system.kernel m t :=
  fun isWaiter => tracks.waiting.shape.notMem awake rfl _
    ((onList_iff tracks.waiting m t).mp isWaiter)

theorem Tracks.rest (tracks : Tracks system waits)
    (waiting : WaitCoherent kernel waits noWindow)
    (registry : kernel.taskRegistry = system.kernel.taskRegistry)
    (idle : kernel.idleTcb = system.kernel.idleTcb) (mutex : kernel.mutex = system.kernel.mutex)
    (priority : kernel.priority = system.kernel.priority)
    (base : kernel.basePriority = system.kernel.basePriority) :
    Simulated system action { system with kernel := kernel } := by
  refine ⟨waits, .rest, ⟨tracks.toLiveRegistry.of_kernel registry idle, waiting, ?_, ?_⟩,
    .rest action, .rest ?_ ?_ ?_ priority base⟩
  · rw [mutex]
    exact tracks.locked
  · rw [mutex]
    exact tracks.held
  · funext t
    change (t ∈ kernel.taskRegistry) = (t ∈ system.kernel.taskRegistry)
    rw [registry]
  · funext m
    change (kernel.mutex m).owner = (system.kernel.mutex m).owner
    rw [mutex]
  · exact onList_eq tracks.waiting waiting

theorem LockedByOwner.update {mutex : Nat → Mutex} (fits : LockedByOwner mutex) (m : Nat)
    {value : Mutex} (valueFits : value.locked = true ↔ value.owner ≠ none) :
    LockedByOwner (Function.update mutex m value) := by
  intro other
  by_cases same : other = m
  · subst other
    rw [Function.update_self]
    exact valueFits
  · rw [Function.update_of_ne same]
    exact fits other

theorem owner_update (mutex : Nat → Mutex) (m : Nat) (value : Mutex) :
    (fun other => (Function.update mutex m value other).owner) =
      Function.update (fun other => (mutex other).owner) m value.owner := by
  funext other
  by_cases same : other = m
  · subst other
    rw [Function.update_self, Function.update_self]
  · rw [Function.update_of_ne same, Function.update_of_ne same]

/-! ### Locks -/

/-- `_apply_pi` lends the owner the smallest priority of the waiters. -/
theorem applyPi_lent {owner : Addr} (waiting : WaitCoherent kernel waits window)
    (nonempty : waits (.mutex m) ≠ []) (isOwner : (kernel.mutex m).owner = some owner)
    (returned : applyPi kernel m = some result) :
    Inheritance.Lent kernel.priority (fun item => item ∈ waits (.mutex m)) owner
      result.priority := by
  obtain ⟨value, minIs, atLeast, best, isBest, valueIs⟩ :=
    minWaitPriorityValue_spec waiting.lists (waiting.length_le (.mutex m)) nonempty
  obtain ⟨first, rest, shape⟩ := List.exists_cons_of_ne_nil nonempty
  have headAt := waiting.lists.head_eq_some shape
  simp only [applyPi, isOwner, headAt, minIs] at returned
  split at returned
  · rename_i below
    refine Or.inr ⟨best, isBest, by rw [← valueIs]; exact below, ?_, ?_⟩
    · intro other member
      rw [← valueIs]
      exact atLeast other member
    · rw [(changePriority_onlyRings returned).core, ← valueIs]
      rfl
  · rename_i notBelow
    cases returned
    exact Or.inl ⟨rfl, fun other member => (Nat.le_of_not_lt notBelow).trans (atLeast other member)⟩

theorem take_simulated (tracks : Tracks system waits) {ticks : Nat}
    (isCurrent : system.kernel.currentTcb = some self)
    (free : (system.kernel.mutex m).locked = false) :
    Simulated system (.call (.lock m ticks))
      { system with kernel := takeMutex system.kernel m self } := by
  have unowned : (system.kernel.mutex m).owner = none := by
    by_contra owned
    rw [(tracks.locked m).mpr owned] at free
    cases free
  have nobody : ∀ t, t ∉ waits (.mutex m) := fun t member => tracks.held m t member unowned
  have waiting : WaitCoherent (takeMutex system.kernel m self) waits noWindow :=
    tracks.waiting.congr rfl rfl rfl rfl rfl rfl rfl
  refine ⟨waits, .take m self, ⟨tracks.toLiveRegistry.of_kernel rfl rfl, waiting, ?_, ?_⟩,
    .take isCurrent, .take ?_ ?_ rfl ?_ ?_ rfl rfl⟩
  · exact tracks.locked.update m (by simp)
  · intro other t member
    by_cases same : other = m
    · subst other
      exact absurd member (nobody t)
    · simpa [takeMutex, same] using tracks.held other t member
  · intro t isWaiter
    exact nobody t ((onList_iff tracks.waiting m t).mp isWaiter)
  · exact tracks.waiting.registry.current self isCurrent
  · exact owner_update system.kernel.mutex m _
  · exact onList_eq tracks.waiting waiting

theorem join_waits (waiting : WaitCoherent kernel waits noWindow) {ticks : Nat}
    {queued boosted : Kernel} (live : self ∈ kernel.taskRegistry)
    (awake : kernel.state self ≠ .blocked)
    (enqueued : tcbEnqueueTail (noteMutex kernel m self) (.mutex m) self = some queued)
    (boost : applyPi queued m = some boosted)
    (blocks : blockRegion (blockFields boosted self .mutex (some m)) self ticks = some result) :
    WaitCoherent result (addWaiter waits (.mutex m) self) noWindow := by
  have noted : WaitCoherent (noteMutex kernel m self) waits noWindow :=
    waiting.congr rfl rfl rfl rfl rfl rfl rfl
  have lent := applyPi_waits (tcbEnqueueTail_waits noted live awake rfl enqueued) boost
  have fields := lockJoin_core enqueued boost
  have stillAwake : boosted.state self ≠ .blocked := by
    rw [fields]
    exact awake
  have stillLive : self ∈ boosted.taskRegistry := by
    rw [fields]
    exact live
  have named : waitId ((blockFields boosted self .mutex (some m)).blockReason self)
      ((blockFields boosted self .mutex (some m)).blockObject self) =
      Function.update noWindow self (some (.mutex m)) self := by
    simp [blockFields, waitId]
  have settled := blockRegion_waits (blockFields_waits lent stillAwake .mutex (some m))
    stillLive stillAwake named blocks
  rw [Function.update_idem, show Function.update noWindow self none = noWindow from
    Function.update_eq_self self noWindow] at settled
  exact settled

structure JoinFrame (before after : Core) : Prop where
  mutex : after.mutex = before.mutex
  registry : after.taskRegistry = before.taskRegistry
  idle : after.idleTcb = before.idleTcb
  base : after.basePriority = before.basePriority

theorem join_frame {ticks : Nat} {queued boosted : Kernel}
    (enqueued : tcbEnqueueTail (noteMutex kernel m self) (.mutex m) self = some queued)
    (boost : applyPi queued m = some boosted)
    (blocks : blockRegion (blockFields boosted self .mutex (some m)) self ticks = some result) :
    JoinFrame kernel.toCore result.toCore := by
  have core := (blockRegion_onlyRings blocks).core
  have boostedFields := lockJoin_core enqueued boost
  have joined : JoinFrame kernel.toCore boosted.toCore := by
    rw [boostedFields]
    exact ⟨rfl, rfl, rfl, rfl⟩
  rw [core]
  exact ⟨joined.mutex, joined.registry, joined.idle, joined.base⟩

theorem join_lent (waiting : WaitCoherent kernel waits noWindow) {ticks : Nat}
    {queued boosted : Kernel} {owner : Addr} (live : self ∈ kernel.taskRegistry)
    (awake : kernel.state self ≠ .blocked) (isOwner : (kernel.mutex m).owner = some owner)
    (enqueued : tcbEnqueueTail (noteMutex kernel m self) (.mutex m) self = some queued)
    (boost : applyPi queued m = some boosted)
    (blocks : blockRegion (blockFields boosted self .mutex (some m)) self ticks = some result) :
    Inheritance.Lent kernel.priority
      (fun item => item ∈ addWaiter waits (.mutex m) self (.mutex m)) owner result.priority := by
  have noted : WaitCoherent (noteMutex kernel m self) waits noWindow :=
    waiting.congr rfl rfl rfl rfl rfl rfl rfl
  have joined := tcbEnqueueTail_waits noted live awake rfl enqueued
  have queuedCore := (tcbEnqueueTail_onlyWaits enqueued).core
  have queuedOwner : (queued.mutex m).owner = some owner := by
    rw [queuedCore]
    exact isOwner
  have lent := applyPi_lent joined (by simp [addWaiter]) queuedOwner boost
  have samePriority : queued.priority = kernel.priority := by
    rw [queuedCore]
    rfl
  have resultPriority : result.priority = boosted.priority := by
    rw [(blockRegion_onlyRings blocks).core]
    rfl
  rw [samePriority, ← resultPriority] at lent
  exact lent

/-- A lock that finds the mutex held: the caller joins the list, lends its
priority to the owner and blocks. -/
theorem join_simulated (tracks : Tracks system waits) {ticks : Nat} {queued boosted : Kernel}
    (isCurrent : system.kernel.currentTcb = some self)
    (awake : system.kernel.state self ≠ .blocked)
    (locked : (system.kernel.mutex m).locked = true)
    (foreign : (system.kernel.mutex m).owner ≠ some self)
    (enqueued : tcbEnqueueTail (noteMutex system.kernel m self) (.mutex m) self = some queued)
    (boost : applyPi queued m = some boosted)
    (blocks : blockRegion (blockFields boosted self .mutex (some m)) self ticks = some result) :
    Simulated system (.call (.lock m ticks)) { system with kernel := result } := by
  have live := tracks.waiting.registry.current self isCurrent
  obtain ⟨owner, isOwner⟩ := Option.ne_none_iff_exists'.mp ((tracks.locked m).mp locked)
  have notSelf : owner ≠ self := by
    rintro rfl
    exact foreign isOwner
  have settled := join_waits tracks.waiting live awake enqueued boost blocks
  have frame := join_frame enqueued boost blocks
  have lent := join_lent tracks.waiting live awake isOwner enqueued boost blocks
  have onListNow : ∀ other t, OnList result other t ↔
      OnList system.kernel other t ∨ (other = m ∧ t = self) := by
    intro other t
    rw [onList_iff settled, onList_iff tracks.waiting, mem_addWaiter, WaitId.mutex.injEq]
  refine ⟨_, .join m self, ⟨tracks.toLiveRegistry.of_kernel frame.registry frame.idle, settled,
    ?_, ?_⟩, .join isCurrent foreign,
    .join isOwner notSelf live (tracks.offLists awake) ?_ ?_ onListNow ?_ frame.base⟩
  · rw [frame.mutex]
    exact tracks.locked
  · intro other t member
    rw [frame.mutex]
    rcases (mem_addWaiter waits (.mutex m) self (.mutex other) t).mp member with old | ⟨same, _⟩
    · exact tracks.held other t old
    · cases same
      rw [isOwner]
      exact Option.some_ne_none owner
  · funext t
    change (t ∈ result.taskRegistry) = (t ∈ system.kernel.taskRegistry)
    rw [frame.registry]
  · funext other
    change (result.mutex other).owner = (system.kernel.mutex other).owner
    rw [frame.mutex]
  · have sameWaiters : OnList result m =
        fun item => item ∈ addWaiter waits (.mutex m) self (.mutex m) :=
      funext fun item => propext (onList_iff settled m item)
    change Inheritance.Lent system.kernel.priority (OnList result m) owner result.priority
    rw [sameWaiters]
    exact lent

theorem lock_simulated (tracks : Tracks system waits) {ticks : Nat} {outcome : Outcome}
    (isCurrent : system.kernel.currentTcb = some self)
    (awake : system.kernel.state self ≠ .blocked)
    (returned : callPass system.kernel self (.lock m ticks) = some (outcome, result)) :
    Simulated system (.call (.lock m ticks)) { system with kernel := result } := by
  rcases callPass_cases isCurrent returned with ⟨_, refused, _⟩ | ⟨_, ends, entered, region, ending⟩
  · cases refused
  · rcases mutexLockRegion_cases region with ⟨isOk, _, _, rfl⟩ | ⟨isOk, free, rfl⟩ |
      ⟨isBlock, locked, foreign, queued, enqueued, boost⟩
    · rcases ending with ⟨_, _, _, rfl⟩ | ⟨isBlock, _⟩
      · exact tracks.rest tracks.waiting rfl rfl rfl rfl rfl
      · rw [isOk] at isBlock
        cases isBlock
    · rcases ending with ⟨_, _, _, rfl⟩ | ⟨isBlock, _⟩
      · exact take_simulated tracks isCurrent free
      · rw [isOk] at isBlock
        cases isBlock
    · rcases ending with ⟨_, _, isReturn, _⟩ | ⟨_, blocks⟩
      · rw [isBlock] at isReturn
        cases isReturn
      · exact join_simulated tracks isCurrent awake locked foreign enqueued boost blocks

/-! ### Unlocks -/

theorem release_simulated (tracks : Tracks system waits)
    (isCurrent : system.kernel.currentTcb = some self)
    (awake : system.kernel.state self ≠ .blocked)
    (owns : ownsMutex system.kernel m self = true) (empty : waits (.mutex m) = [])
    (waiting : WaitCoherent result waits noWindow)
    (core : result.toCore = (schedulerMarkReschedule
      (release (priorityFields system.kernel self (system.kernel.basePriority self)) m)).toCore) :
    Simulated system (.call (.unlock m)) { system with kernel := result } := by
  have isOwner : (system.kernel.mutex m).owner = some self := by
    simp only [ownsMutex, Bool.and_eq_true, decide_eq_true_eq] at owns
    exact owns.2
  have mutexIs : result.mutex = Function.update system.kernel.mutex m
      { locked := false, owner := none } := by
    rw [core]
    rfl
  refine ⟨waits, .drop m self,
    ⟨tracks.toLiveRegistry.of_kernel (by rw [core]; rfl) (by rw [core]; rfl), waiting, ?_, ?_⟩,
    .drop isCurrent owns,
    .release isOwner (tracks.offLists awake) ?_ ?_ ?_ (onList_eq tracks.waiting waiting) ?_ ?_⟩
  · rw [mutexIs]
    exact tracks.locked.update m (by simp)
  · intro other t member
    have different : other ≠ m := by
      rintro rfl
      rw [empty] at member
      exact absurd member List.not_mem_nil
    dsimp only
    rw [mutexIs, Function.update_of_ne different]
    exact tracks.held other t member
  · intro t isWaiter
    have member := (onList_iff tracks.waiting m t).mp isWaiter
    rw [empty] at member
    exact absurd member List.not_mem_nil
  · simp only [inheritanceView, core]
    rfl
  · simp only [inheritanceView, mutexIs]
    exact owner_update system.kernel.mutex m _
  · simp only [inheritanceView, core]
    rfl
  · simp only [inheritanceView, core]
    rfl

/-- An unlock that hands the mutex to the earliest of the most urgent waiters. -/
theorem pass_simulated (tracks : Tracks system waits) {heir : Addr}
    (isCurrent : system.kernel.currentTcb = some self)
    (awake : system.kernel.state self ≠ .blocked)
    (owns : ownsMutex system.kernel m self = true)
    (chosen : firstHighest system.kernel.priority (waits (.mutex m)) = some heir)
    (waiting : WaitCoherent result (removeWaiter waits heir) noWindow)
    (core : result.toCore = (schedulerMarkReschedule (readyFields (handOver
      (priorityFields system.kernel self (system.kernel.basePriority self)) m heir) heir)).toCore) :
    Simulated system (.call (.unlock m)) { system with kernel := result } := by
  have isOwner : (system.kernel.mutex m).owner = some self := by
    simp only [ownsMutex, Bool.and_eq_true, decide_eq_true_eq] at owns
    exact owns.2
  obtain ⟨isWaiter, first⟩ := firstHighest_spec chosen
  have mutexIs : result.mutex = Function.update system.kernel.mutex m
      { locked := true, owner := some heir } := by
    rw [core]
    rfl
  refine ⟨removeWaiter waits heir, .drop m self,
    ⟨tracks.toLiveRegistry.of_kernel (by rw [core]; rfl) (by rw [core]; rfl), waiting, ?_, ?_⟩,
    .drop isCurrent owns,
    .pass isOwner (tracks.offLists awake) ((onList_iff tracks.waiting m heir).mpr isWaiter)
      ?_ ?_ ?_ ?_ ?_ ?_⟩
  · rw [mutexIs]
    exact tracks.locked.update m (by simp)
  · intro other t member
    have old := ((mem_removeWaiter tracks.waiting.lists (.mutex other) t).mp member).1
    dsimp only
    by_cases same : other = m
    · rw [mutexIs, same, Function.update_self]
      exact Option.some_ne_none heir
    · rw [mutexIs, Function.update_of_ne same]
      exact tracks.held other t old
  · intro t onList
    exact first t ((onList_iff tracks.waiting m t).mp onList)
  · simp only [inheritanceView, core]
    rfl
  · simp only [inheritanceView, mutexIs]
    exact owner_update system.kernel.mutex m _
  · intro other t
    change OnList result other t ↔ OnList system.kernel other t ∧ t ≠ heir
    rw [onList_iff waiting, onList_iff tracks.waiting, mem_removeWaiter tracks.waiting.lists]
  · simp only [inheritanceView, core]
    rfl
  · simp only [inheritanceView, core]
    rfl

theorem unlock_simulated (tracks : Tracks system waits) {outcome : Outcome}
    (isCurrent : system.kernel.currentTcb = some self)
    (awake : system.kernel.state self ≠ .blocked)
    (returned : callPass system.kernel self (.unlock m) = some (outcome, result)) :
    Simulated system (.call (.unlock m)) { system with kernel := result } := by
  rcases callPass_cases isCurrent returned with
    ⟨_, _, rfl⟩ | ⟨accepted, ends, entered, region, ending⟩
  · exact tracks.rest tracks.waiting rfl rfl rfl rfl rfl
  · obtain ⟨_, unlock, equal⟩ := Option.map_eq_some_iff.mp region
    cases equal
    have owns : ownsMutex system.kernel m self = true := by
      by_contra notOwner
      simp [callRefused, notOwner] at accepted
    rcases ending with ⟨_, _, _, rfl⟩ | ⟨isBlock, _⟩
    · rcases mutexUnlockRegion_waits tracks.waiting awake rfl
          (fun heir chosen => tracks.waiting.mem_blocked (firstHighest_spec chosen).1) unlock with
        ⟨empty, waiting, core⟩ | ⟨heir, chosen, waiting, core⟩
      · exact release_simulated tracks isCurrent awake owns empty waiting core
      · exact pass_simulated tracks isCurrent awake owns chosen waiting core
    · cases isBlock

/-! ### The other steps -/

theorem tick_simulated (tracks : Tracks system waits)
    (ticked : sysTickHandler system.kernel = some result) :
    Simulated system .sysTick { system with kernel := result } := by
  have waiting := sysTickHandler_waits tracks.waiting ticked
  have quiet := sysTickHandler_quiet ticked
  obtain ⟨woken, wakes, core⟩ := sysTickHandler_core ticked
  have fields := wakes.fields
  have mutexIs : result.mutex = system.kernel.mutex := by
    rw [core, fields]
    rfl
  have members : ∀ list t, t ∈ withoutExpired (rtosTickIncrement system.kernel)
      (rtosTickIncrement system.kernel).tickCount system.kernel.taskRegistry waits list ↔
      t ∈ waits list ∧ ¬ TimesOut system.kernel t := by
    intro list t
    simp only [withoutExpired, List.mem_filter, Bool.not_eq_true', decide_eq_false_iff_not]
    rfl
  refine ⟨_, .leave (TimesOut system.kernel),
    ⟨tracks.toLiveRegistry.of_kernel quiet.registry quiet.idle, waiting, ?_, ?_⟩, .leave,
    .leave ?_ ?_ ?_ ?_ ?_⟩
  · rw [mutexIs]
    exact tracks.locked
  · intro other t member
    rw [mutexIs]
    exact tracks.held other t ((members _ t).mp member).1
  · funext t
    change (t ∈ result.taskRegistry) = (t ∈ system.kernel.taskRegistry)
    rw [quiet.registry]
  · funext other
    change (result.mutex other).owner = (system.kernel.mutex other).owner
    rw [mutexIs]
  · intro other t
    change OnList result other t ↔ OnList system.kernel other t ∧ ¬ TimesOut system.kernel t
    rw [onList_iff waiting, onList_iff tracks.waiting, members]
  · change result.priority = system.kernel.priority
    rw [core, fields]
    rfl
  · change result.basePriority = system.kernel.basePriority
    rw [core, fields]
    rfl

theorem create_simulated (tracks : Tracks system waits) {taskFunc : Option Nat}
    {priority stackSize tcb : Nat} {stackBlock : Option Addr} {added : Kernel}
    (fresh : heapFresh system (some tcb) = true)
    (addition : schedulerAddTask (freshTask system.kernel tcb priority (prioBucket priority))
      (some tcb) = some (.ok, added)) :
    Simulated system (.create taskFunc priority stackSize (some tcb) stackBlock)
      { kernel := { added with taskRegistry := added.taskRegistry ++ [tcb] }
        live := tcb :: system.live } := by
  obtain ⟨_, _, unregistered, bounded⟩ := tracks.toLiveRegistry.fresh fresh
  have waiting := create_waits tracks.waiting unregistered bounded addition
  have core := (schedulerAddTask_onlyRings (Function.update_self _ _ _) addition).core
  have mutexIs : added.mutex = system.kernel.mutex := by
    rw [core]
    rfl
  refine ⟨waits, .born tcb, ⟨tracks.toLiveRegistry.created fresh addition, waiting, ?_, ?_⟩,
    .born taskFunc priority stackSize tcb stackBlock,
    @Inheritance.Step.born _ _ _ _ _ _ _ _ tcb priority unregistered ?_ ?_
      (onList_eq tracks.waiting waiting) ?_ ?_⟩
  · dsimp only
    rw [mutexIs]
    exact tracks.locked
  · dsimp only
    rw [mutexIs]
    exact tracks.held
  · intro other
    have registry : added.taskRegistry = system.kernel.taskRegistry := by
      rw [core]
      rfl
    simp only [inheritanceView, registry, List.mem_append, List.mem_singleton]
  · funext other
    change (added.mutex other).owner = (system.kernel.mutex other).owner
    rw [mutexIs]
  · change added.priority = _
    rw [core]
    rfl
  · change added.basePriority = _
    rw [core]
    rfl

theorem delete_simulated (tracks : Tracks system waits) {detached removed : Kernel}
    (member : t ∈ system.live) (notCurrent : some t ≠ system.kernel.currentTcb)
    (detachment : detachIfBlocked system.kernel t = some detached)
    (removal : schedulerRemoveTask detached (some t) = some removed) :
    Simulated system (.delete t)
      { kernel := { removed with
          state := Function.update removed.state t .terminated
          taskRegistry := removed.taskRegistry.erase t }
        live := system.live.erase t } := by
  have waiting := delete_waits tracks.waiting rfl notCurrent detachment removal
  have distinct := tracks.waiting.registry.distinct
  obtain ⟨reason, object, onMutex, fields, _⟩ := detachIfBlocked_core detachment
  have core := (schedulerRemoveTask_onlyRings removal).core.trans fields
  have mutexIs : removed.mutex = system.kernel.mutex := by rw [core]
  refine ⟨removeWaiter waits t, .die t,
    ⟨tracks.toLiveRegistry.deleted distinct member detachment removal, waiting, ?_, ?_⟩, .die t,
    .die ?_ ?_ ?_ ?_ ?_⟩
  · dsimp only
    rw [mutexIs]
    exact tracks.locked
  · intro other item inside
    dsimp only
    rw [mutexIs]
    exact tracks.held other item
      ((mem_removeWaiter tracks.waiting.lists (.mutex other) item).mp inside).1
  · intro other
    have registry : removed.taskRegistry = system.kernel.taskRegistry := by rw [core]
    simp only [inheritanceView, registry, distinct.mem_erase_iff, and_comm]
  · funext other
    change (removed.mutex other).owner = (system.kernel.mutex other).owner
    rw [mutexIs]
  · intro other item
    change OnList _ other item ↔ OnList system.kernel other item ∧ item ≠ t
    rw [onList_iff waiting, onList_iff tracks.waiting, mem_removeWaiter tracks.waiting.lists]
  · change removed.priority = _
    rw [core]
    rfl
  · change removed.basePriority = _
    rw [core]
    rfl

theorem call_unstarted {call : Call} {outcome : Outcome}
    (only : inheritanceAction (.call call) = true) (nobody : kernel.currentTcb = none)
    (returned : apiCall kernel call = some (outcome, result)) : result = kernel := by
  cases call with
  | lock m ticks =>
      simp only [apiCall, mutexLock, nobody] at returned
      cases returned
      rfl
  | unlock m =>
      simp only [apiCall, mutexUnlock, nobody, Option.map_some] at returned
      cases returned
      rfl
  | _ => cases only

theorem call_simulated (tracks : Tracks system waits) {call : Call} {outcome : Outcome}
    (only : inheritanceAction (.call call) = true) (can : canCall system.kernel = true)
    (returned : apiCall system.kernel call = some (outcome, result)) :
    Simulated system (.call call) { system with kernel := result } := by
  cases isCurrent : system.kernel.currentTcb with
  | none =>
      rw [call_unstarted only isCurrent returned]
      exact tracks.rest tracks.waiting rfl rfl rfl rfl rfl
  | some self =>
      obtain ⟨_, awake⟩ := canCall_some can isCurrent
      rw [apiCall_eq isCurrent] at returned
      cases call with
      | lock m ticks => exact lock_simulated tracks isCurrent awake returned
      | unlock m => exact unlock_simulated tracks isCurrent awake returned
      | _ => cases only

theorem select_simulated (tracks : Tracks system waits) {sel : Addr}
    (member : sel ∈ system.kernel.taskRegistry) (awake : system.kernel.state sel ≠ .blocked)
    (frame : OnlyRings (dispatch (preemptCurrent system.kernel) sel) result) :
    Simulated system action { system with kernel := result } := by
  obtain ⟨state, counter, fields⟩ := select_core system.kernel sel
  have core := frame.core.trans fields
  have waiting := frame.waitCoherent (select_waits tracks.waiting member awake)
  apply tracks.rest waiting
  · rw [core]
  · rw [core]
  · rw [core]
  · rw [core]
  · rw [core]

theorem step_simulated (tracks : Tracks system waits) (only : inheritanceAction action = true)
    (selects : SelectsAwake system action) (taken : step system action = some after) :
    Simulated system action after := by
  cases step_moves taken with
  | stays => exact tracks.rest tracks.waiting rfl rfl rfl rfl rfl
  | creates fresh addition => exact create_simulated tracks fresh addition
  | deletes member notIdle notCurrent detachment removal =>
      exact delete_simulated tracks member notCurrent detachment removal
  | calls can returned => exact call_simulated tracks only can returned
  | yields =>
      exact tracks.rest (tracks.waiting.congr rfl rfl rfl rfl rfl rfl rfl) rfl rfl rfl rfl rfl
  | ticks tick => exact tick_simulated tracks tick
  | selects returned =>
      obtain ⟨member, awake⟩ := selects _ returned
      exact select_simulated tracks member awake (schedulerGetNext_onlyRings returned)
  | dispatches member awake =>
      exact select_simulated tracks member awake (OnlyRings.refl _)

/-! ### Runs -/

theorem Started.tracks (started : Started system) :
    ∃ waits, Tracks system waits ∧ (∀ m, (system.kernel.mutex m).owner = none) ∧
      ∀ t ∈ system.kernel.taskRegistry,
        system.kernel.priority t = system.kernel.basePriority t := by
  obtain ⟨waits, waiting⟩ := started.1.coherent.waits
  obtain ⟨start, idle, initialised, _, core, heads, _⟩ := started.1.spec
  have free : ∀ m, system.kernel.mutex m = { locked := false, owner := none } := by
    intro m
    rw [core]
    exact initialised.mutex_eq m
  refine ⟨waits, ⟨started.liveRegistry, waiting, ?_, ?_⟩, ?_, ?_⟩
  · intro m
    rw [free]
    simp
  · intro m t member
    have reached := (onList_iff waiting m t).mpr member
    unfold OnList at reached
    rw [heads, (initialised.waits_empty (.mutex m)).1] at reached
    cases reached
  · intro m
    rw [free]
  · intro t member
    rw [core] at member ⊢
    rw [List.mem_singleton.mp member]
    simp [freshTask]

/-- An invariant of the protocol that every permitted step keeps holds in every
run. -/
theorem Reachable.simulated {allowed : System → Action → Prop}
    {holds : Inheritance.State Addr Nat Nat → Prop}
    (only : ∀ s a, allowed s a → inheritanceAction a = true ∧ SelectsAwake s a)
    (base : ∀ s, Started s → holds (inheritanceView s.kernel))
    (keeps : ∀ (s next : System) waits a event, Tracks s waits →
      holds (inheritanceView s.kernel) → allowed s a → Performs s.kernel a event →
      Inheritance.Step (inheritanceView s.kernel) (inheritanceView next.kernel) event →
      holds (inheritanceView next.kernel))
    (reached : Reachable Started step allowed system) :
    (∃ waits, Tracks system waits) ∧ holds (inheritanceView system.kernel) := by
  refine Transition.Reachable.invariant
    (fun s => (∃ waits, Tracks s waits) ∧ holds (inheritanceView s.kernel)) ?_ ?_ reached
  · intro s started
    obtain ⟨waits, tracks, _⟩ := started.tracks
    exact ⟨⟨waits, tracks⟩, base s started⟩
  · rintro s a next ⟨⟨waits, tracks⟩, before⟩ permitted taken
    obtain ⟨isPart, awake⟩ := only s a permitted
    obtain ⟨waitsAfter, event, tracksAfter, performs, stepIs⟩ :=
      step_simulated tracks isPart awake taken
    exact ⟨⟨waitsAfter, tracksAfter⟩,
      keeps s next waits a event tracks before permitted performs stepIs⟩

end MicrokernelRtos
