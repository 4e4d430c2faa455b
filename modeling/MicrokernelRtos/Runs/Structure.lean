/-
The kernel structures along runs of atomic calls.

Without mutexes every structure is as it should be in every state of every run.
With mutexes the same holds of the ready rings as long as no RUNNING task gives
up a boost that put it into another bucket: `scheduler_rebucket_task` moves READY
tasks only, so such a task stays in the ring of the boost while its bucket number
is the old one, and its next call that blocks does not find it.
-/

import MicrokernelRtos.Runs.Atomic

namespace MicrokernelRtos

open Linked Transition

variable {system : System}

/-! ### The ready rings under mutexes -/

/-- The rings are circular lists without duplicates; a READY or RUNNING task is
in the ring of its bucket and in no other; no BLOCKED task is in a ring or is
selected. -/
structure RingsConsistent (kernel : Kernel) : Prop where
  rings : ∃ rings : Bucket → List Addr,
    (∀ bucket, IsRing kernel.nextReady (kernel.readyHead bucket) (rings bucket)) ∧
    (∀ t ∈ kernel.taskRegistry, kernel.state t = .ready ∨ kernel.state t = .running →
      ∀ bucket, t ∈ rings bucket ↔ bucket = kernel.prioBucket t) ∧
    ∀ bucket, ∀ t ∈ rings bucket, kernel.state t ≠ .blocked
  selects : ∀ sel next, schedulerGetNext kernel = some (sel, next) → kernel.state sel ≠ .blocked

theorem Coherent.ringsConsistent {kernel : Kernel} {window : Addr → Option WaitId}
    (coherent : Coherent kernel window) : RingsConsistent kernel := by
  obtain ⟨rings, rung⟩ := coherent.rings
  refine ⟨⟨rings, rung.lists.family.ring, ?_, ?_⟩, ?_⟩
  · intro t member awake bucket
    have notBlocked : kernel.state t ≠ .blocked := by
      rcases awake with ready | runs
      · rw [ready]
        decide
      · rw [runs]
        decide
    rw [rung.shape.member]
    constructor
    · exact fun inside => inside.2.1.symm
    · exact fun same => ⟨member, same.symm, notBlocked⟩
  · exact fun bucket t member => ((rung.shape.member bucket t).mp member).2.2
  · intro sel next returned
    obtain ⟨chosen, result, isNext, _, awake, _⟩ := schedulerGetNext_keeps coherent
    rw [returned] at isNext
    cases isNext
    exact awake

def mutexAction : Action → Bool
  | .create _ _ _ _ _ => true
  | .call (.lock _ _) => true
  | .call (.unlock _) => true
  | .call (.delay _) => true
  | .sysTick => true
  | .getNext => true
  | _ => false

/-- Every run in which the unlocks leave a RUNNING caller in its bucket. -/
theorem ringsConsistent_of_reachable
    (reached : Reachable Started step
      (fun s a => mutexAction a = true ∧ UnlockKeepsBucket s a) system) :
    RingsConsistent system.kernel :=
  (Reachable.systemCoherent (fun _ _ permitted => permitted.2) reached).coherent.ringsConsistent

def handOverInBucket : List Action :=
  [.create (some 0) 100 256 (some 1) (some 0), .getNext, .call (.lock 0 0),
    .create (some 0) 97 256 (some 2) (some 0), .getNext, .sysTick, .getNext, .call (.lock 0 0),
    .getNext, .call (.unlock 0), .call (.delay 5)]

theorem ringsConsistent_after_handover :
    ∃ system, Reachable Started step
        (fun s a => mutexAction a = true ∧ UnlockKeepsBucket s a) system ∧
      (system.kernel.mutex 0).owner = some 2 ∧ system.kernel.state 1 = .blocked ∧
      RingsConsistent system.kernel := by
  obtain ⟨final, reached, found⟩ :=
    @exists_reachable_of_run System Action Started step
      (fun s a => mutexAction a = true ∧ UnlockKeepsBucket s a)
      (fun s a => mutexAction a && decide (UnlockKeepsBucket s a))
      (fun s => decide ((s.kernel.mutex 0).owner = some 2) &&
        decide (s.kernel.state 1 = .blocked))
      (fun _ _ checked => by simpa using checked) handOverInBucket startedSystem
      started_startedSystem (by decide +kernel)
  simp only [Bool.and_eq_true, decide_eq_true_eq] at found
  exact ⟨final, reached, found.1, found.2, ringsConsistent_of_reachable reached⟩

/-- A task at 1 with priority 100 locks, one at 2 with priority 40 waits for the
mutex, and the first unlocks at its boosted priority and delays itself. -/
def boostedUnlock : List Action :=
  [.create (some 0) 100 256 (some 1) (some 0), .getNext, .call (.lock 0 0),
    .create (some 0) 40 256 (some 2) (some 0), .sysTick, .getNext, .call (.lock 0 0), .getNext,
    .call (.unlock 0), .call (.delay 5)]

/-- The task is BLOCKED and still at the head of the ring of the boost. -/
theorem ringsConsistent_fails :
    ∃ system, Reachable Started step (fun _ a => mutexAction a = true) system ∧
      ¬ RingsConsistent system.kernel := by
  obtain ⟨final, reached, found⟩ :=
    @exists_reachable_of_run System Action Started step (fun _ a => mutexAction a = true)
      (fun _ a => mutexAction a)
      (fun s => decide (s.kernel.readyHead 1 = some 1) && decide (s.kernel.state 1 = .blocked))
      (fun _ _ checked => checked) boostedUnlock startedSystem started_startedSystem
      (by decide +kernel)
  simp only [Bool.and_eq_true, decide_eq_true_eq] at found
  refine ⟨final, reached, fun consistent => ?_⟩
  obtain ⟨rings, ring, _, awake⟩ := consistent.rings
  have headAt := (ring 1).head_eq
  rw [found.1] at headAt
  exact awake 1 1 (List.mem_of_head? headAt.symm) found.2

/-! ### Everything but mutexes -/

def System.Known (system : System) (t : Addr) : Prop :=
  t ∈ system.live ∨ some t = system.kernel.idleTcb

/-- The rings and the wait lists, the states they go with, and the registry. -/
structure StructureInvariant (system : System) (rings : Bucket → List Addr)
    (waits : WaitId → List Addr) : Prop where
  ring : ∀ bucket, IsRing system.kernel.nextReady (system.kernel.readyHead bucket) (rings bucket)
  bucket : ∀ bucket, ∀ t ∈ rings bucket, system.Known t ∧ system.kernel.prioBucket t = bucket
  ready : ∀ t, system.Known t →
    ((∃ bucket, t ∈ rings bucket) ↔
      system.kernel.state t = .ready ∨ system.kernel.state t = .running)
  running : ∀ t, system.Known t → system.kernel.state t = .running →
    system.kernel.currentTcb = some t
  queue : ∀ list, IsQueue system.kernel.mutexWaitNext (system.kernel.waitHead list)
    (system.kernel.waitTail list) (waits list)
  waiting : ∀ list t, t ∈ waits list ↔ system.Known t ∧ system.kernel.state t = .blocked ∧
    waitId (system.kernel.blockReason t) (system.kernel.blockObject t) = some list
  oneList : ∀ left right t, t ∈ waits left → t ∈ waits right → left = right
  registered : system.kernel.taskRegistry.Nodup ∧ system.live.Nodup ∧
    ∀ t, t ∈ system.kernel.taskRegistry ↔ system.Known t
  idleRing : rings lastBucket ≠ []
  noFallback : firstReady (preemptCurrent system.kernel) ≠ none

theorem preemptCurrent_readyHead (kernel : Kernel) :
    (preemptCurrent kernel).readyHead = kernel.readyHead :=
  congrArg Links.readyHead (preemptCurrent_links kernel).1

theorem SystemCoherent.structureInvariant (holds : SystemCoherent system) :
    ∃ rings waits, StructureInvariant system rings waits := by
  obtain ⟨⟨rings, rung⟩, waits, waiting⟩ := holds.coherent
  obtain ⟨idle, member, isIdle, awake, isLast⟩ := rung.shape.idle
  have idleMember : idle ∈ rings lastBucket :=
    (rung.shape.member lastBucket idle).mpr ⟨member, isLast, awake⟩
  refine ⟨rings, waits, rung.lists.family.ring, ?_, ?_, ?_, waiting.lists.queue, ?_,
    waiting.lists.apart, ⟨waiting.registry.distinct, holds.distinct, holds.registry⟩,
    List.ne_nil_of_mem idleMember, ?_⟩
  · intro bucket t inside
    obtain ⟨live, isBucket, _⟩ := (rung.shape.member bucket t).mp inside
    exact ⟨(holds.registry t).mp live, isBucket⟩
  · intro t known
    have live := (holds.registry t).mpr known
    constructor
    · rintro ⟨bucket, inside⟩
      have notBlocked := ((rung.shape.member bucket t).mp inside).2.2
      rcases rung.shape.live t live with ready | runs | blocked
      · exact Or.inl ready
      · exact Or.inr runs
      · exact absurd blocked notBlocked
    · intro awakeState
      refine ⟨_, (rung.shape.member _ t).mpr ⟨live, rfl, ?_⟩⟩
      rcases awakeState with ready | runs
      · rw [ready]
        decide
      · rw [runs]
        decide
  · exact fun t known => rung.shape.running t ((holds.registry t).mpr known)
  · intro list t
    rw [waiting.shape.member, holds.registry]
    simp only [WaitsOn, noWindow, reduceCtorEq, or_false]
    rfl
  · intro nothing
    have skipped := List.findSome?_eq_none_iff.mp nothing lastBucket (List.mem_finRange lastBucket)
    rw [Option.map_eq_none_iff, preemptCurrent_readyHead,
      (rung.lists.family.ring lastBucket).head_eq] at skipped
    exact List.ne_nil_of_mem idleMember (List.head?_eq_none_iff.mp skipped)

def mutexFreeAction : Action → Bool
  | .create _ _ _ _ _ => true
  | .delete _ => true
  | .call (.wait _ _) => true
  | .call (.post _) => true
  | .call (.send _ _ _) => true
  | .call (.recv _ _) => true
  | .call (.delay _) => true
  | .yield => true
  | .sysTick => true
  | .getNext => true
  | _ => false

theorem structureInvariant_of_reachable
    (reached : Reachable Started step (fun _ a => mutexFreeAction a = true) system) :
    ∃ rings waits, StructureInvariant system rings waits := by
  refine SystemCoherent.structureInvariant (Reachable.systemCoherent ?_ reached)
  intro s a permitted
  cases a with
  | call call =>
      intro self _ _
      cases call with
      | unlock m => cases permitted
      | _ => trivial
  | _ => trivial

def waitersAndDelete : List Action :=
  [.create (some 0) 100 256 (some 1) (some 0), .create (some 0) 40 256 (some 2) (some 0),
    .create (some 0) 200 256 (some 3) (some 0), .getNext, .call (.wait 0 0), .getNext,
    .delete 3, .call (.recv 0 5), .getNext, .sysTick]

theorem structureInvariant_with_waiters :
    ∃ system, Reachable Started step (fun _ a => mutexFreeAction a = true) system ∧
      system.kernel.waitHead (.semaphore 0) = some 2 ∧
      system.kernel.waitHead (.msgRecv 0) = some 1 ∧
      ∃ rings waits, StructureInvariant system rings waits := by
  obtain ⟨final, reached, found⟩ :=
    @exists_reachable_of_run System Action Started step (fun _ a => mutexFreeAction a = true)
      (fun _ a => mutexFreeAction a)
      (fun s => decide (s.kernel.waitHead (.semaphore 0) = some 2) &&
        decide (s.kernel.waitHead (.msgRecv 0) = some 1))
      (fun _ _ checked => checked) waitersAndDelete startedSystem started_startedSystem
      (by decide +kernel)
  simp only [Bool.and_eq_true, decide_eq_true_eq] at found
  exact ⟨final, reached, found.1, found.2, structureInvariant_of_reachable reached⟩

end MicrokernelRtos
