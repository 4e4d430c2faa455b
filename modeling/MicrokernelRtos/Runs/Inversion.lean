/-
What priority inheritance of one level achieves.

Three laws are stated over the runs of locks, unlocks and timeouts: an owner is
as urgent as the base of every waiter, a boosted task has a waiter at its
priority, and along a chain of blocked tasks the last is as urgent as the first.
Each fails in some run, and holds in every run whose steps meet the condition
that is stated with it.  The last one holds in every run for chains without a
boosted waiter, since a boost goes to the owner and no further.

The laws are about runs in which the scheduler selects no BLOCKED task.  It selects
none as long as every unlock leaves a RUNNING caller in its bucket.
-/

import MicrokernelRtos.Runs.Inheritance

namespace MicrokernelRtos

open Linked Transition

variable {kernel : Kernel} {system : System} {action : Action}
variable {waits : WaitId → List Addr} {event : Inheritance.Event Addr Nat}

theorem Performs.deathless (performs : Performs kernel action event)
    (keeps : keepsTasks action = true) (t : Addr) : event ≠ .die t := by
  rintro rfl
  cases performs
  cases keeps

theorem Started.below (started : Started system) :
    Inheritance.Below (inheritanceView system.kernel) := by
  obtain ⟨waits, _, _, atBase⟩ := started.tracks
  exact fun t live => (atBase t live).le

theorem Started.unheld (started : Started system) (m : Nat) (t : Addr) :
    (inheritanceView system.kernel).holder m ≠ some t := by
  obtain ⟨waits, _, free, _⟩ := started.tracks
  intro isHolder
  have owned : (system.kernel.mutex m).owner = some t := isHolder
  rw [free m] at owned
  cases owned

/-! ### Direct waiters -/

/-- The owner of a mutex is as urgent as the base of every task on its list. -/
def NoDirectInversion (kernel : Kernel) : Prop :=
  ∀ m o w, (kernel.mutex m).locked = true → (kernel.mutex m).owner = some o →
    OnList kernel m w → kernel.priority o ≤ kernel.basePriority w

/-- A task that unlocks a mutex holds no other one with a waiter whose base is
below its own. -/
def UnlocksSafely (system : System) : Action → Prop
  | .call (.unlock m) => ∀ o ∈ system.kernel.currentTcb, ownsMutex system.kernel m o = true →
      ∀ other w, other ≠ m → (system.kernel.mutex other).owner = some o →
        OnList system.kernel other w → system.kernel.basePriority o ≤ system.kernel.basePriority w
  | _ => True

theorem Performs.dropsSafely (performs : Performs system.kernel action event)
    (safe : UnlocksSafely system action) :
    Inheritance.DropsSafely (inheritanceView system.kernel) event := by
  cases performs with
  | drop isCurrent owns => exact safe _ isCurrent owns
  | _ => trivial

theorem Reachable.direct
    (reached : Reachable Started step (fun s a => inheritanceAction a = true ∧
      keepsTasks a = true ∧ SelectsAwake s a ∧ UnlocksSafely s a) system) :
    (∃ waits, Tracks system waits) ∧ Inheritance.Direct (inheritanceView system.kernel) := by
  have holds := @Reachable.simulated system _
    (fun s => Inheritance.Direct s ∧ Inheritance.Below s ∧ Inheritance.HoldersLive s)
    (fun _ _ permitted => ⟨permitted.1, permitted.2.2.1⟩)
    (fun s started => ⟨fun m o _ isHolder => absurd isHolder (started.unheld m o), started.below,
      fun m o isHolder => absurd isHolder (started.unheld m o)⟩)
    (fun s next waits a event tracks before permitted performs taken => by
      obtain ⟨direct, below, holders⟩ := before
      have wellFormed := tracks.wellFormed
      exact ⟨taken.direct direct wellFormed below holders (performs.dropsSafely permitted.2.2.2),
        taken.below below, taken.holdersLive holders wellFormed
          (performs.deathless permitted.2.1)⟩) reached
  exact ⟨holds.1, holds.2.1⟩

theorem noDirectInversion_of_reachable
    (reached : Reachable Started step (fun s a => inheritanceAction a = true ∧
      keepsTasks a = true ∧ SelectsAwake s a ∧ UnlocksSafely s a) system) :
    NoDirectInversion system.kernel := by
  obtain ⟨_, direct⟩ := Reachable.direct reached
  exact fun m o w _ isOwner onList => direct m o w isOwner onList

def lendOnce (ticks : Nat) : List Action :=
  [.create (some 0) 100 256 (some 1) (some 0), .create (some 0) 97 256 (some 2) (some 0),
    .getNext, .call (.lock 0 0), .getNext, .call (.lock 0 ticks)]

/-- The processor goes to nobody but the task that `scheduler_get_next` selects. -/
def scheduled : Action → Bool
  | .dispatch _ => false
  | _ => true

def noUnlock : Action → Bool
  | .call (.unlock _) => false
  | _ => true

theorem unlocksSafely_of_noUnlock (without : noUnlock action = true) :
    UnlocksSafely system action := by
  unfold UnlocksSafely
  split
  · cases without
  · trivial

theorem noDirectInversion_after_lending :
    ∃ system, Reachable Started step (fun s a => inheritanceAction a = true ∧
        keepsTasks a = true ∧ SelectsAwake s a ∧ UnlocksSafely s a) system ∧
      system.kernel.waitHead (.mutex 0) = some 2 ∧ system.kernel.priority 1 = 97 ∧
      NoDirectInversion system.kernel := by
  obtain ⟨final, reached, found⟩ :=
    @exists_reachable_of_run System Action Started step
      (fun s a => inheritanceAction a = true ∧ keepsTasks a = true ∧ SelectsAwake s a ∧
        UnlocksSafely s a)
      (fun s a => inheritanceAction a && keepsTasks a && decide (SelectsAwake s a) && noUnlock a)
      (fun s => decide (s.kernel.waitHead (.mutex 0) = some 2) &&
        decide (s.kernel.priority 1 = 97))
      (fun _ _ checked => by
        simp only [Bool.and_eq_true, decide_eq_true_eq] at checked
        exact ⟨checked.1.1.1, checked.1.1.2, checked.1.2, unlocksSafely_of_noUnlock checked.2⟩)
      (lendOnce 0) startedSystem started_startedSystem (by decide +kernel)
  simp only [Bool.and_eq_true, decide_eq_true_eq] at found
  exact ⟨final, reached, found.1, found.2, noDirectInversion_of_reachable reached⟩

/-- The first task holds two mutexes, the second blocks on one of them, and the
first unlocks the other one. -/
def unlockTheOther : List Action :=
  [.create (some 0) 100 256 (some 1) (some 0), .create (some 0) 97 256 (some 2) (some 0),
    .getNext, .call (.lock 0 0), .call (.lock 1 0), .getNext, .call (.lock 1 0),
    .getNext, .call (.unlock 0)]

/-- The owner is back at 100 while a task of priority 97 waits. -/
theorem noDirectInversion_fails :
    ∃ system, Reachable Started step (fun _ a => inheritanceAction a = true ∧
        keepsTasks a = true ∧ scheduled a = true) system ∧
      ¬ NoDirectInversion system.kernel := by
  obtain ⟨final, reached, found⟩ :=
    @exists_reachable_of_run System Action Started step
      (fun _ a => inheritanceAction a = true ∧ keepsTasks a = true ∧ scheduled a = true)
      (fun _ a => inheritanceAction a && (keepsTasks a && scheduled a))
      (fun s => decide ((s.kernel.mutex 1).locked = true) &&
        decide ((s.kernel.mutex 1).owner = some 1) &&
        decide (s.kernel.waitHead (.mutex 1) = some 2) &&
        decide (s.kernel.priority 1 = 100) && decide (s.kernel.basePriority 2 = 97))
      (fun _ _ checked => by simpa using checked) unlockTheOther startedSystem
      started_startedSystem (by decide +kernel)
  simp only [Bool.and_eq_true, decide_eq_true_eq] at found
  obtain ⟨⟨⟨⟨locked, owner⟩, headAt⟩, priority⟩, base⟩ := found
  refine ⟨final, reached, fun holds => ?_⟩
  have onList : OnList final.kernel 1 2 := by
    unfold OnList
    rw [headAt]
    exact .here 2
  have urgent := holds 1 1 2 locked owner onList
  rw [priority, base] at urgent
  omega

/-! ### Residual boosts -/

/-- A task on the list of a mutex of the task has its priority, and is one of
those spared. -/
def HasLender (kernel : Kernel) (t : Addr) (spared : Addr → Prop) : Prop :=
  ∃ m w, (kernel.mutex m).owner = some t ∧ OnList kernel m w ∧
    kernel.priority w = kernel.priority t ∧ spared w

/-- A task below its base priority owns a locked mutex with a waiter of exactly
that priority, and a task without waiters is at its base. -/
structure NoResidualBoost (kernel : Kernel) : Prop where
  lent : ∀ t ∈ kernel.taskRegistry, kernel.priority t < kernel.basePriority t →
    ∃ m w, (kernel.mutex m).locked = true ∧ (kernel.mutex m).owner = some t ∧
      OnList kernel m w ∧ kernel.priority w = kernel.priority t
  atBase : ∀ t ∈ kernel.taskRegistry,
    (∀ m w, (kernel.mutex m).owner = some t → ¬ OnList kernel m w) →
      kernel.priority t = kernel.basePriority t

/-- Every boosted task keeps a lender: at a tick one that does not time out, at a
deletion one that is not deleted, and at a lock that boosts the owner of the
mutex one that is not this owner. -/
def LendersStay (system : System) : Action → Prop
  | .sysTick => ∀ t ∈ system.kernel.taskRegistry,
      system.kernel.priority t < system.kernel.basePriority t →
        HasLender system.kernel t fun w => ¬ TimesOut system.kernel w
  | .delete d => ∀ t ∈ system.kernel.taskRegistry, t ≠ d →
      system.kernel.priority t < system.kernel.basePriority t →
        HasLender system.kernel t fun w => w ≠ d
  | .call (.lock m _) => ∀ self ∈ system.kernel.currentTcb, ∀ o,
      (system.kernel.mutex m).owner = some o → o ≠ self →
      (∃ w, (OnList system.kernel m w ∨ w = self) ∧
        system.kernel.priority w < system.kernel.priority o) →
      ∀ t ∈ system.kernel.taskRegistry, t ≠ o →
        system.kernel.priority t < system.kernel.basePriority t →
          HasLender system.kernel t fun w => w ≠ o
  | _ => True

theorem Performs.keepsLenders (performs : Performs system.kernel action event)
    (safe : LendersStay system action) :
    Inheritance.KeepsLenders (inheritanceView system.kernel) event := by
  cases performs with
  | join isCurrent foreign =>
      intro o isOwner someone
      refine safe _ isCurrent o isOwner ?_ someone
      rintro rfl
      exact foreign isOwner
  | leave => exact safe
  | die t => exact safe
  | _ => trivial

/-- A lock of a mutex with an owner finds this owner alive, so that what it is lent is not
written into memory that has gone back to the heap. -/
def LendsToLive (system : System) : Action → Prop
  | .call (.lock m _) => ∀ o ∈ (system.kernel.mutex m).owner, o ∈ system.kernel.taskRegistry
  | _ => True

/-- What a run may do: no unlock takes a RUNNING caller out of its bucket, nothing is lent
to a task that is gone, and the lenders stay. -/
def LendingAllowed (system : System) (action : Action) : Prop :=
  UnlockKeepsBucket system action ∧ LendsToLive system action ∧ LendersStay system action

/-- In every run of locks and unlocks, with the scheduler's choices or any other, in which
these conditions are met at every step, a boost has a waiter behind it. -/
theorem noResidualBoost_of_reachable
    (reached : Reachable Started step
      (fun s a => inheritanceAction a = true ∧ LendingAllowed s a) system) :
    NoResidualBoost system.kernel := by
  have awake := Reachable.selectsAwake (fun _ _ permitted => permitted.2.1) reached
  have holds := @Reachable.simulated system _
    (fun s => Inheritance.Witnessed s ∧ Inheritance.Below s)
    (fun _ _ permitted => ⟨permitted.1.1, permitted.2⟩)
    (fun s started => by
      obtain ⟨waits, _, _, atBase⟩ := started.tracks
      refine ⟨fun t live boosted => absurd boosted ?_, started.below⟩
      exact (atBase t live).not_lt)
    (fun s next waits a event tracks before permitted performs taken =>
      ⟨taken.witnessed before.1 tracks.wellFormed (performs.keepsLenders permitted.1.2.2.2),
        taken.below before.2⟩) awake
  obtain ⟨⟨waits, tracks⟩, witnessed, below⟩ := holds
  refine ⟨fun t live boosted => ?_, fun t live alone => ?_⟩
  · obtain ⟨m, w, isOwner, onList, same, _⟩ := witnessed t live boosted
    have owned : (system.kernel.mutex m).owner = some t := isOwner
    refine ⟨m, w, (tracks.locked m).mpr ?_, owned, onList, same⟩
    rw [owned]
    exact Option.some_ne_none t
  · rcases Nat.lt_or_eq_of_le (below t live) with boosted | same
    · obtain ⟨m, w, isOwner, onList, _⟩ := witnessed t live boosted
      exact absurd onList (alone m w isOwner)
    · exact same

def nobodyBoosted (system : System) : Action → Bool
  | .sysTick => boostless system.kernel
  | .delete _ => boostless system.kernel
  | .call (.lock m _) => boostless system.kernel &&
      decide (∀ o ∈ (system.kernel.mutex m).owner, o ∈ system.kernel.taskRegistry)
  | _ => true
where
  boostless (kernel : Kernel) : Bool :=
    kernel.taskRegistry.all fun t => decide (kernel.priority t = kernel.basePriority t)

theorem nobodyBoosted.not_lt {t : Addr} (none : nobodyBoosted.boostless kernel = true)
    (live : t ∈ kernel.taskRegistry) : ¬ kernel.priority t < kernel.basePriority t := by
  have same := of_decide_eq_true (List.all_eq_true.mp none t live)
  rw [same]
  exact Nat.lt_irrefl _

theorem lendersStay_of_nobodyBoosted (none : nobodyBoosted system action = true) :
    LendersStay system action := by
  unfold LendersStay
  split
  · exact fun t live boosted => absurd boosted (nobodyBoosted.not_lt none live)
  · exact fun t live _ boosted => absurd boosted (nobodyBoosted.not_lt none live)
  · have boostless := (Bool.and_eq_true_iff.mp none).1
    exact fun _ _ _ _ _ _ t live _ boosted => absurd boosted (nobodyBoosted.not_lt boostless live)
  · trivial

theorem lendsToLive_of_nobodyBoosted (none : nobodyBoosted system action = true) :
    LendsToLive system action := by
  unfold LendsToLive
  split
  · exact of_decide_eq_true (Bool.and_eq_true_iff.mp none).2
  · trivial

theorem noResidualBoost_after_lending :
    ∃ system, Reachable Started step
        (fun s a => inheritanceAction a = true ∧ LendingAllowed s a) system ∧
      1 ∈ system.kernel.taskRegistry ∧ system.kernel.priority 1 = 97 ∧
      system.kernel.basePriority 1 = 100 ∧ NoResidualBoost system.kernel := by
  obtain ⟨final, reached, found⟩ :=
    @exists_reachable_of_run System Action Started step
      (fun s a => inheritanceAction a = true ∧ LendingAllowed s a)
      (fun s a => inheritanceAction a && decide (UnlockKeepsBucket s a) && nobodyBoosted s a)
      (fun s => decide (1 ∈ s.kernel.taskRegistry) && decide (s.kernel.priority 1 = 97) &&
        decide (s.kernel.basePriority 1 = 100))
      (fun _ _ checked => by
        simp only [Bool.and_eq_true, decide_eq_true_eq] at checked
        exact ⟨checked.1.1, checked.1.2, lendsToLive_of_nobodyBoosted checked.2,
          lendersStay_of_nobodyBoosted checked.2⟩)
      (lendOnce 0) startedSystem started_startedSystem (by decide +kernel)
  simp only [Bool.and_eq_true, decide_eq_true_eq] at found
  obtain ⟨⟨live, priority⟩, base⟩ := found
  exact ⟨final, reached, live, priority, base, noResidualBoost_of_reachable reached⟩

/-- The second task waits one tick, and its timeout leaves the first one at its
priority. -/
theorem noResidualBoost_fails :
    ∃ system, Reachable Started step (fun _ a => inheritanceAction a = true ∧
        keepsTasks a = true ∧ scheduled a = true) system ∧
      ¬ NoResidualBoost system.kernel := by
  obtain ⟨final, reached, found⟩ :=
    @exists_reachable_of_run System Action Started step
      (fun s a => (inheritanceAction a = true ∧ keepsTasks a = true ∧ scheduled a = true) ∧
        SelectsAwake s a)
      (fun s a => (inheritanceAction a && (keepsTasks a && scheduled a)) &&
        decide (SelectsAwake s a))
      (fun s => decide (1 ∈ s.kernel.taskRegistry) && decide (s.kernel.priority 1 = 97) &&
        decide (s.kernel.basePriority 1 = 100) &&
        s.kernel.taskRegistry.all fun t => decide (s.kernel.state t ≠ TaskState.blocked))
      (fun _ _ checked => by simpa using checked) (lendOnce 1 ++ [.sysTick]) startedSystem
      started_startedSystem (by decide +kernel)
  simp only [Bool.and_eq_true, decide_eq_true_eq, List.all_eq_true] at found
  obtain ⟨⟨⟨live, priority⟩, base⟩, awake⟩ := found
  obtain ⟨⟨waits, tracks⟩, _⟩ := @Reachable.simulated final _ (fun _ => True)
    (fun _ _ permitted => ⟨permitted.1.1, permitted.2⟩) (fun _ _ => trivial)
    (fun _ _ _ _ _ _ _ _ _ _ => trivial) reached
  refine ⟨final, reached.mono fun _ _ permitted => permitted.1, fun holds => ?_⟩
  have same := holds.atBase 1 live fun m w _ onList => by
    have member := (onList_iff tracks.waiting m w).mp onList
    have inside := ((tracks.waiting.shape.member _ w).mp member).1
    exact awake w inside (tracks.waiting.mem_blocked member)
  rw [priority, base] at same
  omega

/-! ### Chains -/

def BlockedOn (kernel : Kernel) (w o : Addr) : Prop :=
  w ∈ kernel.taskRegistry ∧ kernel.state w = .blocked ∧ kernel.blockReason w = .mutex ∧
    ∃ m, kernel.blockObject w = some m ∧ (kernel.mutex m).owner = some o

/-- Along every chain of tasks, each BLOCKED on a mutex of the next, the last is
as urgent as the first. -/
def ChainsInherit (kernel : Kernel) : Prop :=
  ∀ first last, Relation.ReflTransGen (BlockedOn kernel) first last →
    kernel.priority last ≤ kernel.priority first

/-- Nobody releases a mutex while holding another. -/
def ReleasesLast (system : System) : Action → Prop
  | .call (.unlock m) => ∀ self ∈ system.kernel.currentTcb,
      ownsMutex system.kernel m self = true →
        ∀ other, other ≠ m → (system.kernel.mutex other).owner ≠ some self
  | _ => True

/-- A task that locks a mutex whose owner is itself BLOCKED on a mutex is no more
urgent than the owner of that one. -/
def LocksBehindUrgent (system : System) : Action → Prop
  | .call (.lock m _) => ∀ self ∈ system.kernel.currentTcb, ∀ o u,
      (system.kernel.mutex m).owner = some o → o ≠ self → BlockedOn system.kernel o u →
        system.kernel.priority u ≤ system.kernel.priority self
  | _ => True

theorem Tracks.onList_iff_blocked (tracks : Tracks system waits) (m : Nat) (w : Addr) :
    OnList system.kernel m w ↔ w ∈ system.kernel.taskRegistry ∧
      system.kernel.state w = .blocked ∧ system.kernel.blockReason w = .mutex ∧
      system.kernel.blockObject w = some m := by
  rw [onList_iff tracks.waiting, tracks.waiting.shape.member]
  constructor
  · rintro ⟨live, ⟨blocked, named⟩ | onWay⟩
    · unfold waitId at named
      split at named
      · rename_i reason object
        cases named
        exact ⟨live, blocked, reason, object⟩
      all_goals cases named
    · cases onWay
  · rintro ⟨live, blocked, reason, object⟩
    refine ⟨live, Or.inl ⟨blocked, ?_⟩⟩
    rw [reason, object]
    rfl

theorem Tracks.blockedOn_iff (tracks : Tracks system waits) (w o : Addr) :
    BlockedOn system.kernel w o ↔
      Inheritance.BlockedBy (inheritanceView system.kernel) w o := by
  constructor
  · rintro ⟨live, blocked, reason, m, object, isOwner⟩
    exact ⟨m, (tracks.onList_iff_blocked m w).mpr ⟨live, blocked, reason, object⟩, isOwner⟩
  · rintro ⟨m, onList, isOwner⟩
    obtain ⟨live, blocked, reason, object⟩ := (tracks.onList_iff_blocked m w).mp onList
    exact ⟨live, blocked, reason, m, object, isOwner⟩

theorem Performs.keepsChains (performs : Performs system.kernel action event)
    (tracks : Tracks system waits) (last : ReleasesLast system action)
    (urgent : LocksBehindUrgent system action) :
    Inheritance.KeepsChains (inheritanceView system.kernel) event := by
  cases performs with
  | join isCurrent foreign =>
      intro o other u isOwner onList isNext
      have blocked := (tracks.blockedOn_iff o u).mpr ⟨other, onList, isNext⟩
      refine urgent _ isCurrent o u isOwner ?_ blocked
      rintro rfl
      exact foreign isOwner
  | drop isCurrent owns => exact last _ isCurrent owns
  | _ => trivial

theorem Reachable.chains
    (reached : Reachable Started step (fun s a => inheritanceAction a = true ∧
      keepsTasks a = true ∧ UnlockKeepsBucket s a ∧ ReleasesLast s a ∧ LocksBehindUrgent s a)
      system) : ChainsInherit system.kernel := by
  have awake := Reachable.selectsAwake (fun _ _ permitted => permitted.2.2.1) reached
  have holds := @Reachable.simulated system _
    (fun s => Inheritance.Edge s ∧ Inheritance.HoldersLive s)
    (fun _ _ permitted => ⟨permitted.1.1, permitted.2⟩)
    (fun s started => ⟨fun m o _ isHolder => absurd isHolder (started.unheld m o),
      fun m o isHolder => absurd isHolder (started.unheld m o)⟩)
    (fun s next waits a event tracks before permitted performs taken => by
      obtain ⟨⟨_, keeps, _, last, urgent⟩, _⟩ := permitted
      have wellFormed := tracks.wellFormed
      exact ⟨taken.edge before.1 wellFormed before.2 (performs.keepsChains tracks last urgent),
        taken.holdersLive before.2 wellFormed (performs.deathless keeps)⟩) awake
  obtain ⟨⟨waits, tracks⟩, edge, _⟩ := holds
  intro first last chain
  have links : ∀ w o, BlockedOn system.kernel w o →
      Inheritance.BlockedBy (inheritanceView system.kernel) w o :=
    fun w o => (tracks.blockedOn_iff w o).mp
  exact edge.chain (Relation.ReflTransGen.mono links _ _ chain)

/-- A task that holds nothing but the mutex it unlocks drops no boost that a
waiter for another mutex has given. -/
theorem ReleasesLast.unlocksSafely (last : ReleasesLast system action) :
    UnlocksSafely system action := by
  unfold ReleasesLast at last
  unfold UnlocksSafely
  split
  · exact fun o isCurrent owns other w different isOwner _ =>
      absurd isOwner (last o isCurrent owns other different)
  · trivial

/-- Inheritance is one level deep.  In every run in which nobody releases a mutex while
holding another and no unlock takes a RUNNING caller out of its bucket, an owner is as
urgent as the base of each of its direct waiters, and priorities are passed on along
chains of waiters that are not boosted themselves; along every chain they are as long as
no lock is made behind an owner that is blocked by a less urgent one. -/
theorem chainsInherit_of_reachable
    (reached : Reachable Started step (fun s a => inheritanceAction a = true ∧
      keepsTasks a = true ∧ UnlockKeepsBucket s a ∧ ReleasesLast s a) system) :
    (∀ w o, BlockedOn system.kernel w o →
      system.kernel.priority o ≤ system.kernel.basePriority w) ∧
    (∀ first last, Relation.ReflTransGen (fun w o => BlockedOn system.kernel w o ∧
        system.kernel.priority w = system.kernel.basePriority w) first last →
      system.kernel.priority last ≤ system.kernel.priority first) ∧
    (Reachable Started step (fun s a => inheritanceAction a = true ∧ keepsTasks a = true ∧
        UnlockKeepsBucket s a ∧ ReleasesLast s a ∧ LocksBehindUrgent s a) system →
      ChainsInherit system.kernel) := by
  have awake := Reachable.selectsAwake (fun _ _ permitted => permitted.2.2.1) reached
  have safely : Reachable Started step (fun s a => inheritanceAction a = true ∧
      keepsTasks a = true ∧ SelectsAwake s a ∧ UnlocksSafely s a) system :=
    awake.mono fun _ _ permitted =>
      ⟨permitted.1.1, permitted.1.2.1, permitted.2, permitted.1.2.2.2.unlocksSafely⟩
  obtain ⟨⟨waits, tracks⟩, direct⟩ := Reachable.direct safely
  refine ⟨fun w o blocked => ?_, fun first last chain => ?_, Reachable.chains⟩
  · obtain ⟨m, onList, isOwner⟩ := (tracks.blockedOn_iff w o).mp blocked
    exact direct m o w isOwner onList
  · refine direct.chain (Relation.ReflTransGen.mono ?_ _ _ chain)
    exact fun w o link => ⟨(tracks.blockedOn_iff w o).mp link.1, link.2⟩

def locksAlone (system : System) : Action → Bool
  | .call (.unlock _) => false
  | .call (.lock _ _) => system.kernel.taskRegistry.all fun t =>
      decide (system.kernel.state t ≠ TaskState.blocked)
  | _ => true

theorem releasesLast_of_locksAlone (alone : locksAlone system action = true) :
    ReleasesLast system action := by
  unfold ReleasesLast
  split
  · cases alone
  · trivial

theorem locksBehindUrgent_of_locksAlone (alone : locksAlone system action = true) :
    LocksBehindUrgent system action := by
  unfold LocksBehindUrgent
  split
  · rintro self _ o u _ _ ⟨live, blocked, _⟩
    exact absurd blocked (of_decide_eq_true (List.all_eq_true.mp alone o live))
  · trivial

theorem chainsInherit_after_lending :
    ∃ system, Reachable Started step (fun s a => inheritanceAction a = true ∧
        keepsTasks a = true ∧ UnlockKeepsBucket s a ∧ ReleasesLast s a) system ∧
      system.kernel.state 2 = .blocked ∧ system.kernel.priority 1 = 97 ∧
      (∀ w o, BlockedOn system.kernel w o →
        system.kernel.priority o ≤ system.kernel.basePriority w) ∧
      ChainsInherit system.kernel := by
  obtain ⟨final, reached, found⟩ :=
    @exists_reachable_of_run System Action Started step
      (fun s a => inheritanceAction a = true ∧ keepsTasks a = true ∧ UnlockKeepsBucket s a ∧
        ReleasesLast s a ∧ LocksBehindUrgent s a)
      (fun s a => inheritanceAction a && keepsTasks a && decide (UnlockKeepsBucket s a) &&
        locksAlone s a)
      (fun s => decide (s.kernel.state 2 = .blocked) && decide (s.kernel.priority 1 = 97))
      (fun _ _ checked => by
        simp only [Bool.and_eq_true, decide_eq_true_eq] at checked
        exact ⟨checked.1.1.1, checked.1.1.2, checked.1.2, releasesLast_of_locksAlone checked.2,
          locksBehindUrgent_of_locksAlone checked.2⟩)
      (lendOnce 0) startedSystem started_startedSystem (by decide +kernel)
  simp only [Bool.and_eq_true, decide_eq_true_eq] at found
  have weaker : Reachable Started step (fun s a => inheritanceAction a = true ∧
      keepsTasks a = true ∧ UnlockKeepsBucket s a ∧ ReleasesLast s a) final :=
    reached.mono fun _ _ permitted =>
      ⟨permitted.1, permitted.2.1, permitted.2.2.1, permitted.2.2.2.1⟩
  obtain ⟨direct, _, chains⟩ := chainsInherit_of_reachable weaker
  exact ⟨final, weaker, found.1, found.2, direct, chains reached⟩

/-- Three tasks of priorities 100, 99 and 98: the second holds a mutex and waits
for the first, and the third locks the mutex of the second. -/
def lockBehindWaiter : List Action :=
  [.create (some 0) 100 256 (some 1) (some 0), .create (some 0) 99 256 (some 2) (some 0),
    .create (some 0) 98 256 (some 3) (some 0), .getNext, .call (.lock 0 0), .getNext,
    .call (.lock 1 0), .call (.lock 0 0), .getNext, .call (.lock 1 0)]

/-- The first task stays at 99, behind the third one at 98. -/
theorem chainsInherit_fails :
    ∃ system, Reachable Started step (fun s a => inheritanceAction a = true ∧
        keepsTasks a = true ∧ scheduled a = true ∧ ReleasesLast s a) system ∧
      ¬ ChainsInherit system.kernel := by
  obtain ⟨final, reached, found⟩ :=
    @exists_reachable_of_run System Action Started step
      (fun s a => inheritanceAction a = true ∧ keepsTasks a = true ∧ scheduled a = true ∧
        ReleasesLast s a)
      (fun _ a => inheritanceAction a && keepsTasks a && scheduled a && noUnlock a)
      (fun s => decide (2 ∈ s.kernel.taskRegistry ∧ s.kernel.state 2 = TaskState.blocked ∧
          s.kernel.blockReason 2 = BlockReason.mutex ∧ s.kernel.blockObject 2 = some 0) &&
        decide (3 ∈ s.kernel.taskRegistry ∧ s.kernel.state 3 = TaskState.blocked ∧
          s.kernel.blockReason 3 = BlockReason.mutex ∧ s.kernel.blockObject 3 = some 1) &&
        decide ((s.kernel.mutex 0).owner = some 1 ∧ (s.kernel.mutex 1).owner = some 2) &&
        decide (s.kernel.priority 1 = 99 ∧ s.kernel.priority 3 = 98))
      (fun _ _ checked => by
        simp only [Bool.and_eq_true] at checked
        refine ⟨checked.1.1.1, checked.1.1.2, checked.1.2, ?_⟩
        unfold ReleasesLast
        split
        · cases checked.2
        · trivial) lockBehindWaiter startedSystem started_startedSystem (by decide +kernel)
  simp only [Bool.and_eq_true, decide_eq_true_eq] at found
  obtain ⟨⟨⟨second, third⟩, owners⟩, priorities⟩ := found
  have secondWaits : BlockedOn final.kernel 2 1 :=
    ⟨second.1, second.2.1, second.2.2.1, 0, second.2.2.2, owners.1⟩
  have thirdWaits : BlockedOn final.kernel 3 2 :=
    ⟨third.1, third.2.1, third.2.2.1, 1, third.2.2.2, owners.2⟩
  refine ⟨final, reached, fun holds => ?_⟩
  have urgent := holds 3 1 ((Relation.ReflTransGen.single thirdWaits).tail secondWaits)
  rw [priorities.1, priorities.2] at urgent
  omega

end MicrokernelRtos
