/-
The wait lists of the three kinds of objects as plain FIFO lists.

mutex.c, semaphore.c and msgqueue.c each hold their own functions for a list, over
the head and tail of their object and the one field `mutex_wait_next` of the task
control block.  mutex.c has no function that takes the first waiter.  The runs mix
the functions of all three files on any number of lists.
-/

import MicrokernelRtos.Coherence.Boot
import MicrokernelRtos.Library.Chain
import MicrokernelRtos.Library.TransitionSystem

namespace MicrokernelRtos

open Linked Transition

/-! ### One FIFO list -/

inductive FifoOp where
  | enqueue (t : Addr)
  | unlink (t : Addr)
  | popHead
  deriving DecidableEq, Repr

def FifoOp.apply : FifoOp → List Addr → List Addr
  | .enqueue t, items => items ++ [t]
  | .unlink t, items => items.erase t
  | .popHead, items => items.tail

def FifoOp.output : FifoOp → List Addr → Option Addr
  | .popHead, items => items.head?
  | _, _ => none

def FifoOp.removed : FifoOp → List Addr → Option Addr
  | .enqueue _, _ => none
  | .unlink t, items => if t ∈ items then some t else none
  | .popHead, items => items.head?

/-! ### The functions of the three files -/

def mutexWaitEnqueueTail (kernel : Kernel) (m : Nat) (t : Addr) : Option Kernel :=
  tcbEnqueueTail kernel (.mutex m) t

def mutexWaitUnlink (kernel : Kernel) (m : Nat) (t : Addr) : Option Kernel :=
  tcbUnlink kernel (.mutex m) t

def semaphoreWaitEnqueue (kernel : Kernel) (sem : Nat) (t : Addr) : Option Kernel :=
  tcbEnqueueTail kernel (.semaphore sem) t

def semaphoreWaitUnlink (kernel : Kernel) (sem : Nat) (t : Addr) : Option Kernel :=
  tcbUnlink kernel (.semaphore sem) t

def semaphoreWaitPopHead (kernel : Kernel) (sem : Nat) : Option Addr × Kernel :=
  tcbPopHead kernel (.semaphore sem)

/-- The operation as the file of the list's object has it.  The functions of
msgqueue.c take the addresses of a head and a tail. -/
def waitOperation (kernel : Kernel) (list : WaitId) : FifoOp → Option (Option Addr × Kernel)
  | .enqueue t =>
      match list with
      | .mutex m => (mutexWaitEnqueueTail kernel m t).map fun queued => (none, queued)
      | .semaphore sem => (semaphoreWaitEnqueue kernel sem t).map fun queued => (none, queued)
      | .msgSend q => (tcbEnqueueTail kernel (.msgSend q) t).map fun queued => (none, queued)
      | .msgRecv q => (tcbEnqueueTail kernel (.msgRecv q) t).map fun queued => (none, queued)
  | .unlink t =>
      match list with
      | .mutex m => (mutexWaitUnlink kernel m t).map fun rest => (none, rest)
      | .semaphore sem => (semaphoreWaitUnlink kernel sem t).map fun rest => (none, rest)
      | .msgSend q => (tcbUnlink kernel (.msgSend q) t).map fun rest => (none, rest)
      | .msgRecv q => (tcbUnlink kernel (.msgRecv q) t).map fun rest => (none, rest)
  | .popHead =>
      match list with
      | .mutex _ => none
      | .semaphore sem => some (semaphoreWaitPopHead kernel sem)
      | .msgSend q => some (tcbPopHead kernel (.msgSend q))
      | .msgRecv q => some (tcbPopHead kernel (.msgRecv q))

def Kernel.waitItems (kernel : Kernel) (list : WaitId) : List Addr :=
  (readChain kernel.mutexWaitNext kernel.walkLimit (kernel.waitHead list)).getD []

structure WaitCall where
  list : WaitId
  op : FifoOp
  deriving DecidableEq, Repr

def waitStep (kernel : Kernel) (call : WaitCall) : Option Kernel :=
  (waitOperation kernel call.list call.op).map fun result => result.2

/-- Only a task that is on no list is enqueued, any task is unlinked, and the first
one is taken from the lists of semaphores and message queues. -/
def WaitAllowed (kernel : Kernel) (call : WaitCall) : Prop :=
  match call.op with
  | .enqueue t => t < kernel.walkLimit ∧ ∀ list, t ∉ kernel.waitItems list
  | .unlink _ => True
  | .popHead => ∀ m, call.list ≠ .mutex m

def WaitBoot (kernel : Kernel) : Prop :=
  ∀ list, kernel.waitHead list = none ∧ kernel.waitTail list = none

/-! ### Well-formed lists -/

/-- The lists end, share no task, and hold tasks of the pool. -/
structure WaitsGood (kernel : Kernel) : Prop where
  lists : kernel.WaitsAre kernel.waitItems
  bounded : ∀ list, ∀ t ∈ kernel.waitItems list, t < kernel.walkLimit

variable {kernel result : Kernel} {waits : WaitId → List Addr} {list : WaitId}

theorem waitItems_eq (lists : kernel.WaitsAre waits)
    (bounded : ∀ list, ∀ t ∈ waits list, t < kernel.walkLimit) : kernel.waitItems = waits := by
  funext list
  unfold Kernel.waitItems
  rw [readChain_of_path (lists.queue list).path (lists.length_le bounded list)]
  rfl

theorem WaitsGood.length_le (good : WaitsGood kernel) (list : WaitId) :
    (kernel.waitItems list).length ≤ kernel.walkLimit :=
  good.lists.length_le good.bounded list

theorem waitsGood_boot (boot : WaitBoot kernel) : WaitsGood kernel := by
  have empty : kernel.WaitsAre fun _ => [] := by
    refine ⟨fun list => ?_, fun _ _ _ member => absurd member List.not_mem_nil⟩
    rw [(boot list).1, (boot list).2]
    exact isQueue_empty _
  have same := waitItems_eq empty fun _ _ member => absurd member List.not_mem_nil
  refine ⟨by rw [same]; exact empty, ?_⟩
  rw [same]
  exact fun _ _ member => absurd member List.not_mem_nil

structure SameList (kernel : Kernel) (list : WaitId) (other : Kernel) (position : WaitId) :
    Prop where
  items : kernel.waitItems list = other.waitItems position
  head : kernel.waitHead list = other.waitHead position
  tail : kernel.waitTail list = other.waitTail position
  links : ∀ t ∈ kernel.waitItems list, kernel.mutexWaitNext t = other.mutexWaitNext t

theorem WaitsGood.sameList {other : Kernel} {position : WaitId} (left : WaitsGood kernel)
    (right : WaitsGood other) (same : kernel.waitItems list = other.waitItems position) :
    SameList kernel list other position := by
  have queue := left.lists.queue list
  have queueOther := right.lists.queue position
  rw [← same] at queueOther
  exact ⟨same, queue.head_eq.trans queueOther.head_eq.symm, queue.last.trans queueOther.last.symm,
    queue.path.next_eq queueOther.path⟩

/-! ### The operations -/

/-- The operation acts on its list, and every other list and the rest of the kernel
are as they were. -/
structure ActsAsFifo (kernel : Kernel) (call : WaitCall) (output : Option Addr) (after : Kernel) :
    Prop where
  output : output = call.op.output (kernel.waitItems call.list)
  items : after.waitItems call.list = call.op.apply (kernel.waitItems call.list)
  others : ∀ other, other ≠ call.list → SameList after other kernel other
  cleared : ∀ t, call.op.removed (kernel.waitItems call.list) = some t →
    after.mutexWaitNext t = none
  frame : OnlyWaits kernel after

/-- What an operation keeps, once it is known what it makes of the list. -/
theorem WaitsGood.keeps (good : WaitsGood kernel) {items : List Addr}
    (frame : OnlyWaits kernel result)
    (lists : result.WaitsAre (Function.update kernel.waitItems list items))
    (members : ∀ t ∈ items, t < kernel.walkLimit) :
    WaitsGood result ∧ result.waitItems list = items ∧
      ∀ other, other ≠ list → SameList result other kernel other := by
  have limit : result.walkLimit = kernel.walkLimit :=
    congrArg (fun core : Core => core.config.poolSize) frame.core
  have bounded : ∀ position, ∀ t ∈ Function.update kernel.waitItems list items position,
      t < result.walkLimit := by
    intro position t member
    rw [limit]
    by_cases here : position = list
    · rw [here, Function.update_self] at member
      exact members t member
    · rw [Function.update_of_ne here] at member
      exact good.bounded position t member
  have same := waitItems_eq lists bounded
  have kept : WaitsGood result := ⟨by rw [same]; exact lists, by rw [same]; exact bounded⟩
  refine ⟨kept, by rw [same, Function.update_self], fun other different => ?_⟩
  apply kept.sameList good
  rw [same, Function.update_of_ne different]

/-- The call returns, and the lists are well formed again. -/
def Served (kernel : Kernel) (call : WaitCall) : Prop :=
  ∃ output after, waitOperation kernel call.list call.op = some (output, after) ∧
    WaitsGood after ∧ ActsAsFifo kernel call output after

theorem enqueue_served {t : Addr} (good : WaitsGood kernel)
    (allowed : WaitAllowed kernel ⟨list, .enqueue t⟩) : Served kernel ⟨list, .enqueue t⟩ := by
  obtain ⟨below, absent⟩ := allowed
  obtain ⟨after, returned, lists⟩ := @tcbEnqueueTail_spec _ _ list _ good.lists absent
  obtain ⟨kept, items, others⟩ := good.keeps (tcbEnqueueTail_onlyWaits returned) lists (by
    intro member inside
    rcases List.mem_append.mp inside with old | new
    · exact good.bounded list member old
    · rw [List.mem_singleton.mp new]
      exact below)
  refine ⟨none, after, ?_, kept, rfl, items, others, ?_, tcbEnqueueTail_onlyWaits returned⟩
  · cases list <;> exact congrArg (Option.map fun queued => (none, queued)) returned
  · intro left leaves
    cases leaves

theorem tcbUnlink_cleared {t : Addr} (returned : tcbUnlink kernel list t = some result) :
    result = kernel ∨ result.mutexWaitNext t = none := by
  simp only [tcbUnlink] at returned
  split at returned
  · exact Or.inl (Option.some.inj returned).symm
  · split at returned
    · cases returned
    · exact Or.inl (Option.some.inj returned).symm
    · cases returned
      exact Or.inr (Function.update_self _ _ _)
    · cases returned
      exact Or.inr (Function.update_self _ _ _)

theorem unlink_served {t : Addr} (good : WaitsGood kernel) : Served kernel ⟨list, .unlink t⟩ := by
  obtain ⟨after, returned, lists⟩ :=
    @tcbUnlink_spec _ _ list t good.lists (good.length_le list)
  obtain ⟨kept, items, others⟩ := good.keeps (tcbUnlink_onlyWaits returned) lists
    fun member inside => good.bounded list member (List.mem_of_mem_erase inside)
  refine ⟨none, after, ?_, kept, rfl, items, others, ?_, tcbUnlink_onlyWaits returned⟩
  · cases list <;> exact congrArg (Option.map fun rest => (none, rest)) returned
  · intro left leaves
    simp only [FifoOp.removed] at leaves
    split at leaves
    · rename_i listed
      cases leaves
      rcases tcbUnlink_cleared returned with unchanged | cleared
      · rw [unchanged] at items
        have shorter := List.length_erase_of_mem listed
        rw [← items] at shorter
        have positive := List.length_pos_of_mem listed
        omega
      · exact cleared
    · cases leaves

theorem popHead_served (good : WaitsGood kernel)
    (allowed : WaitAllowed kernel ⟨list, .popHead⟩) : Served kernel ⟨list, .popHead⟩ := by
  have called : waitOperation kernel list .popHead = some (tcbPopHead kernel list) := by
    cases list with
    | mutex m => exact absurd rfl (allowed m)
    | semaphore sem => rfl
    | msgSend q => rfl
    | msgRecv q => rfl
  refine ⟨(tcbPopHead kernel list).1, (tcbPopHead kernel list).2, called, ?_⟩
  cases shape : kernel.waitItems list with
  | nil =>
      rw [tcbPopHead_empty good.lists shape]
      refine ⟨good, ?_, ?_, fun other _ => good.sameList good rfl, ?_, OnlyWaits.refl kernel⟩
      · simp only [FifoOp.output, shape, List.head?_nil]
      · simp only [FifoOp.apply, shape, List.tail_nil]
      · intro t leaves
        simp only [FifoOp.removed, shape, List.head?_nil] at leaves
        cases leaves
  | cons first rest =>
      obtain ⟨popped, lists⟩ := tcbPopHead_spec good.lists shape
      obtain ⟨kept, items, others⟩ := good.keeps (tcbPopHead_onlyWaits kernel list) lists
        fun member inside => good.bounded list member (by
          rw [shape]
          exact List.mem_cons_of_mem first inside)
      refine ⟨kept, ?_, ?_, others, ?_, tcbPopHead_onlyWaits kernel list⟩
      · simp only [FifoOp.output, shape, List.head?_cons]
        exact popped
      · simp only [FifoOp.apply, shape, List.tail_cons]
        exact items
      · intro t leaves
        simp only [FifoOp.removed, shape, List.head?_cons] at leaves
        cases leaves
        unfold tcbPopHead
        rw [good.lists.head_eq_some shape]
        exact Function.update_self _ _ _

theorem WaitsGood.served {call : WaitCall} (good : WaitsGood kernel)
    (allowed : WaitAllowed kernel call) : Served kernel call := by
  obtain ⟨list, op⟩ := call
  cases op with
  | enqueue t => exact enqueue_served good allowed
  | unlink t => exact unlink_served good
  | popHead => exact popHead_served good allowed

/-! ### Whole runs -/

theorem waitsGood_of_reachable (reached : Reachable WaitBoot waitStep WaitAllowed kernel) :
    WaitsGood kernel := by
  refine reached.invariant WaitsGood (fun _ => waitsGood_boot) ?_
  intro kernel call after good allowed taken
  obtain ⟨output, result, returned, kept, _⟩ := good.served allowed
  simp only [waitStep, returned, Option.map_some, Option.some.injEq] at taken
  rw [← taken]
  exact kept

/-- The list ends, without meeting a task twice, and its tail is the last task. -/
structure WaitListFormed (kernel : Kernel) (list : WaitId) : Prop where
  path : Path kernel.mutexWaitNext (kernel.waitHead list) (kernel.waitItems list) none
  distinct : (kernel.waitItems list).Nodup
  tail : kernel.waitTail list = (kernel.waitItems list).getLast?
  empty : kernel.waitHead list = none ↔ kernel.waitTail list = none

theorem WaitsGood.formed (good : WaitsGood kernel) (list : WaitId) :
    WaitListFormed kernel list := by
  have queue := good.lists.queue list
  refine ⟨queue.path, queue.distinct, queue.last, ?_⟩
  rw [queue.head_eq, queue.last, List.head?_eq_none_iff, List.getLast?_eq_none_iff]

/-- The same call on equal lists, in two kernels and of two files, has the same
results. -/
def SameResults (kernel : Kernel) (list : WaitId) (other : Kernel) (position : WaitId)
    (op : FifoOp) : Prop :=
  ∃ output after otherAfter, waitOperation kernel list op = some (output, after) ∧
    waitOperation other position op = some (output, otherAfter) ∧
    SameList after list otherAfter position

theorem sameResults_of_good {other : Kernel} {position : WaitId} {op : FifoOp}
    (left : WaitsGood kernel) (right : WaitsGood other)
    (allowed : WaitAllowed kernel ⟨list, op⟩) (otherAllowed : WaitAllowed other ⟨position, op⟩)
    (same : kernel.waitItems list = other.waitItems position) :
    SameResults kernel list other position op := by
  obtain ⟨output, after, returned, kept, acts⟩ := left.served allowed
  obtain ⟨otherOutput, otherAfter, otherReturned, otherKept, otherActs⟩ :=
    right.served otherAllowed
  have outputs : otherOutput = output := by
    rw [acts.output, otherActs.output]
    simp only [same]
  rw [outputs] at otherReturned
  refine ⟨output, after, otherAfter, returned, otherReturned, kept.sameList otherKept ?_⟩
  rw [acts.items, otherActs.items]
  simp only [same]

/-- In every reachable state every wait list is well formed and no task is on two of
them; every call returns and acts on its list as on a FIFO list and on no other list;
and equal lists in two reachable states have equal results, whichever files they are
of. -/
theorem waitLists_refine_fifo (reached : Reachable WaitBoot waitStep WaitAllowed kernel) :
    (∀ list, WaitListFormed kernel list) ∧
      (∀ left right t, t ∈ kernel.waitItems left → t ∈ kernel.waitItems right → left = right) ∧
      (∀ call, WaitAllowed kernel call → ∃ output after,
        waitOperation kernel call.list call.op = some (output, after) ∧
        ActsAsFifo kernel call output after) ∧
      ∀ other, Reachable WaitBoot waitStep WaitAllowed other → ∀ list position op,
        WaitAllowed kernel ⟨list, op⟩ → WaitAllowed other ⟨position, op⟩ →
        kernel.waitItems list = other.waitItems position →
        SameResults kernel list other position op := by
  have good := waitsGood_of_reachable reached
  refine ⟨good.formed, good.lists.apart, ?_, ?_⟩
  · intro call allowed
    obtain ⟨output, after, returned, _, acts⟩ := good.served allowed
    exact ⟨output, after, returned, acts⟩
  · intro other otherReached list position op allowed otherAllowed same
    exact sameResults_of_good good (waitsGood_of_reachable otherReached) allowed otherAllowed same

theorem waitBoot_resetKernel : WaitBoot resetKernel := fun _ => ⟨rfl, rfl⟩

theorem WaitBoot.waitItems (boot : WaitBoot kernel) (list : WaitId) :
    kernel.waitItems list = [] := by
  have queue := (waitsGood_boot boot).lists.queue list
  apply List.head?_eq_none_iff.mp
  rw [← queue.head_eq]
  exact (boot list).1

theorem waitLists_refine_fifo_two_waiters :
    ∃ kernel after, kernel.waitItems (.semaphore 0) = [1, 2] ∧
      WaitListFormed kernel (.semaphore 0) ∧
      waitOperation kernel (.semaphore 0) .popHead = some (some 1, after) ∧
      after.waitItems (.semaphore 0) = [2] ∧ after.mutexWaitNext 1 = none := by
  have empty := waitBoot_resetKernel.waitItems
  have start : Reachable WaitBoot waitStep WaitAllowed resetKernel :=
    Reachable.initial waitBoot_resetKernel
  have allowedFirst : WaitAllowed resetKernel ⟨.semaphore 0, .enqueue 1⟩ :=
    ⟨by decide, fun list => by rw [empty]; exact List.not_mem_nil⟩
  obtain ⟨_, one, queued, _, acts⟩ := (waitsGood_of_reachable start).served allowedFirst
  have reachedOne : Reachable WaitBoot waitStep WaitAllowed one :=
    start.next allowedFirst (by simp only [waitStep, queued, Option.map_some])
  have items : one.waitItems (.semaphore 0) = [1] := by
    rw [acts.items, empty]
    rfl
  have limit : one.walkLimit = resetKernel.walkLimit :=
    congrArg (fun core : Core => core.config.poolSize) acts.frame.core
  have allowedSecond : WaitAllowed one ⟨.semaphore 0, .enqueue 2⟩ := by
    refine ⟨by rw [limit]; decide, fun list => ?_⟩
    by_cases here : list = .semaphore 0
    · rw [here, items]
      decide
    · rw [(acts.others list here).items, empty]
      exact List.not_mem_nil
  obtain ⟨_, two, queuedTwo, _, actsTwo⟩ := (waitsGood_of_reachable reachedOne).served allowedSecond
  have reached : Reachable WaitBoot waitStep WaitAllowed two :=
    reachedOne.next allowedSecond (by simp only [waitStep, queuedTwo, Option.map_some])
  have both : two.waitItems (.semaphore 0) = [1, 2] := by
    rw [actsTwo.items, items]
    rfl
  obtain ⟨formed, _, served, _⟩ := waitLists_refine_fifo reached
  obtain ⟨output, after, popped, pops⟩ :=
    served ⟨.semaphore 0, .popHead⟩ (fun _ same => by cases same)
  refine ⟨two, after, both, formed _, ?_, ?_, pops.cleared 1 ?_⟩
  · rw [popped, pops.output]
    simp only [both]
    rfl
  · rw [pops.items]
    simp only [both]
    rfl
  · simp only [both]
    rfl

end MicrokernelRtos
