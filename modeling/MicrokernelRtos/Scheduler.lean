/-
scheduler.c: eight circular ready lists over `next_ready`.

The code finds the end of a ring by walking the cycle.  A walk that meets NULL
or takes more steps than there are task control blocks has no result.  Over
well-formed rings every operation returns, and it acts on the lists the rings
stand for.
-/

import MicrokernelRtos.KernelState

namespace MicrokernelRtos

open Linked

/-! ### The code -/

/-- `while (tail->next_ready != head) { tail = tail->next_ready; }` -/
def findTail (next : Addr → Option Addr) (head : Addr) : Nat → Addr → Option Addr
  | 0, _ => none
  | fuel + 1, tail =>
      if next tail = some head then some tail
      else
        match next tail with
        | none => none
        | some after => findTail next head fuel after

inductive RingSearch where
  | absent
  | found (prev : Option Addr)
  deriving DecidableEq, Repr

def findInRing (next : Addr → Option Addr) (head tcb : Addr) :
    Nat → Option Addr → Addr → Option RingSearch
  | 0, _, _ => none
  | fuel + 1, prev, walk =>
      if walk = tcb then some (.found prev)
      else
        match next walk with
        | none => none
        | some after =>
            if after = head then some .absent
            else findInRing next head tcb fuel (some walk) after

def ringInsert (kernel : Kernel) (bucket : Bucket) (tcb : Addr) : Option Kernel :=
  match kernel.readyHead bucket with
  | none => some
      { kernel with
        nextReady := Function.update kernel.nextReady tcb (some tcb)
        readyHead := Function.update kernel.readyHead bucket (some tcb) }
  | some head =>
      (findTail kernel.nextReady head kernel.walkLimit head).map fun tail =>
        { kernel with
          nextReady :=
            Function.update (Function.update kernel.nextReady tail (some tcb)) tcb (some head) }

/-- The call is put on record before anything else happens. -/
def Kernel.recordAddCall (kernel : Kernel) (tcb : Addr) : Kernel :=
  { kernel with addCalls :=
      { task := tcb, nextReady := kernel.nextReady, readyHead := kernel.readyHead } ::
        kernel.addCalls }

def schedulerAddTask (kernel : Kernel) (tcb : Option Addr) : Option (Status × Kernel) :=
  match tcb with
  | none => some (.errParam, kernel)
  | some tcb =>
      if kernel.state tcb = .terminated then some (.errState, kernel.recordAddCall tcb)
      else
        (ringInsert (kernel.recordAddCall tcb) (kernel.prioBucket tcb) tcb).map fun inserted =>
          if inserted.state tcb ≠ .blocked ∧ inserted.state tcb ≠ .suspended then
            (.ok, { inserted with state := Function.update inserted.state tcb .ready })
          else (.ok, inserted)

def schedulerRemoveTask (kernel : Kernel) (tcb : Option Addr) : Option Kernel :=
  match tcb with
  | none => some kernel
  | some tcb =>
      let bucket := kernel.prioBucket tcb
      match kernel.readyHead bucket with
      | none => some kernel
      | some head =>
          match findInRing kernel.nextReady head tcb kernel.walkLimit none head with
          | none => none
          | some .absent => some kernel
          | some (.found prev) =>
              let nextLink := kernel.nextReady tcb
              if nextLink = some tcb then
                some
                  { kernel with
                    readyHead := Function.update kernel.readyHead bucket none
                    nextReady := Function.update kernel.nextReady tcb none }
              else
                match prev with
                | none =>
                    (findTail kernel.nextReady head kernel.walkLimit head).map fun tail =>
                      { kernel with
                        readyHead := Function.update kernel.readyHead bucket nextLink
                        nextReady := Function.update
                          (Function.update kernel.nextReady tail nextLink) tcb none }
                | some prev =>
                    some
                      { kernel with
                        nextReady := Function.update
                          (Function.update kernel.nextReady prev nextLink) tcb none }

def schedulerRebucketTask (kernel : Kernel) (tcb : Option Addr)
    (oldBucket newBucket : Bucket) : Option Kernel :=
  match tcb with
  | none => some kernel
  | some tcb =>
      if oldBucket = newBucket then some kernel
      else if kernel.state tcb = .ready then do
        let removed ← schedulerRemoveTask
          { kernel with prioBucket := Function.update kernel.prioBucket tcb oldBucket } (some tcb)
        let added ← schedulerAddTask
          { removed with prioBucket := Function.update removed.prioBucket tcb newBucket }
          (some tcb)
        some added.2
      else some { kernel with prioBucket := Function.update kernel.prioBucket tcb newBucket }

/-- The writes `scheduler_get_next` makes to the task it selects. -/
def dispatch (kernel : Kernel) (sel : Addr) : Kernel :=
  { kernel with
    state := Function.update kernel.state sel .running
    timeSliceCounter := Function.update kernel.timeSliceCounter sel 0
    currentTcb := some sel }

/-- The first lines of `scheduler_get_next`. -/
def preemptCurrent (kernel : Kernel) : Kernel :=
  match kernel.currentTcb with
  | none => kernel
  | some prev =>
      if kernel.state prev = .running then
        { kernel with state := Function.update kernel.state prev .ready }
      else kernel

def firstReady (kernel : Kernel) : Option (Bucket × Addr) :=
  (List.finRange 8).findSome? fun bucket =>
    (kernel.readyHead bucket).map fun head => (bucket, head)

/-- Without a ready task and without an idle task the code loops forever. -/
def schedulerGetNext (kernel : Kernel) : Option (Addr × Kernel) :=
  let kernel := preemptCurrent kernel
  match firstReady kernel with
  | some (bucket, sel) => some (sel, dispatch
      { kernel with
        readyHead := Function.update kernel.readyHead bucket (kernel.nextReady sel) } sel)
  | none =>
      match kernel.idleTcb with
      | some idle => some (idle, dispatch kernel idle)
      | none => none

def schedulerMarkReschedule (kernel : Kernel) : Kernel :=
  { kernel with pendSv := true }

def schedulerTimeSliceTick (kernel : Kernel) : Option Kernel :=
  match kernel.currentTcb with
  | none => some kernel
  | some cur =>
      if some cur = kernel.idleTcb ∨ kernel.state cur ≠ .running then some kernel
      else
        let counter := (kernel.timeSliceCounter cur + 1) % uint32Size
        if counter < kernel.config.timeSliceTicks then
          some { kernel with
            timeSliceCounter := Function.update kernel.timeSliceCounter cur counter }
        else
          let reset := { kernel with
            timeSliceCounter := Function.update kernel.timeSliceCounter cur 0 }
          match kernel.readyHead (kernel.prioBucket cur) with
          | none => some reset
          | some head =>
              if kernel.nextReady head = some head then some reset
              else some (schedulerMarkReschedule reset)

/-! ### The walks -/

theorem findTail_eq_last {next : Addr → Option Addr} {head start last : Addr}
    {front : List Addr} {fuel : Nat}
    (path : Path next (some start) (front ++ [last]) (some head))
    (later : head ∉ (front ++ [last]).tail) (enough : (front ++ [last]).length ≤ fuel) :
    findTail next head fuel start = some last := by
  induction front generalizing start fuel with
  | nil =>
      obtain ⟨starts, stops⟩ := path
      cases starts
      cases fuel with
      | zero => simp at enough
      | succ fuel => exact if_pos stops
  | cons first rest ih =>
      obtain ⟨starts, onward⟩ := path
      cases starts
      cases fuel with
      | zero => simp at enough
      | succ fuel =>
          simp only [List.cons_append, List.tail_cons, List.length_cons] at later enough
          obtain ⟨second, member, follows⟩ := onward.exists_start (by simp)
          have different : ¬ next first = some head := by
            rw [follows]
            intro same
            exact later (Option.some.inj same ▸ member)
          unfold findTail
          rw [if_neg different, follows]
          exact ih (follows ▸ onward) (fun inside => later (List.mem_of_mem_tail inside))
            (by omega)

theorem findInRing_found {next : Addr → Option Addr} {head tcb start : Addr}
    {before : List Addr} {stop prev : Option Addr} {fuel : Nat}
    (path : Path next (some start) (before ++ [tcb]) stop)
    (fresh : tcb ∉ before) (later : head ∉ (before ++ [tcb]).tail)
    (enough : before.length < fuel) :
    findInRing next head tcb fuel prev start = some (.found (before.getLast?.or prev)) := by
  induction before generalizing start prev fuel with
  | nil =>
      obtain ⟨starts, _⟩ := path
      cases starts
      cases fuel with
      | zero => simp at enough
      | succ fuel => simp [findInRing]
  | cons first rest ih =>
      obtain ⟨starts, onward⟩ := path
      cases starts
      cases fuel with
      | zero => simp at enough
      | succ fuel =>
          simp only [List.cons_append, List.tail_cons, List.length_cons] at later enough
          obtain ⟨second, member, follows⟩ := onward.exists_start (by simp)
          have notFirst : first ≠ tcb := fun same => fresh (by simp [same])
          have notHead : second ≠ head := fun same => later (same ▸ member)
          unfold findInRing
          rw [if_neg notFirst, follows]
          simp only [notHead, if_false]
          rw [ih (follows ▸ onward) (fun inside => fresh (List.mem_cons_of_mem _ inside))
            (fun inside => later (List.mem_of_mem_tail inside)) (by omega)]
          cases rest with
          | nil => rfl
          | cons item items => simp [List.getLast?_cons]

theorem findInRing_absent {next : Addr → Option Addr} {head tcb start : Addr}
    {items : List Addr} {prev : Option Addr} {fuel : Nat}
    (path : Path next (some start) (start :: items) (some head))
    (fresh : tcb ∉ start :: items) (later : head ∉ items)
    (enough : items.length < fuel) :
    findInRing next head tcb fuel prev start = some .absent := by
  induction items generalizing start prev fuel with
  | nil =>
      cases fuel with
      | zero => simp at enough
      | succ fuel =>
          have stops : next start = some head := path.2
          have different : start ≠ tcb := fun same => fresh (by simp [same])
          simp [findInRing, stops, different]
  | cons second others ih =>
      cases fuel with
      | zero => simp at enough
      | succ fuel =>
          have follows : next start = some second := path.2.1
          have different : start ≠ tcb := fun same => fresh (by simp [same])
          have notHead : second ≠ head := fun same => later (by simp [same])
          simp only [findInRing, follows]
          rw [if_neg different, if_neg notHead]
          refine ih (follows ▸ path.2) (fun member => fresh (List.mem_cons_of_mem _ member))
            (fun member => later (List.mem_cons_of_mem _ member)) ?_
          simp only [List.length_cons] at enough
          omega

/-! ### Frames: what an operation can have changed when it returns -/

/-- Nothing but the ready rings and the record of calls differs. -/
structure OnlyRings (before after : Kernel) : Prop where
  core : after.toCore = before.toCore
  waitNext : after.mutexWaitNext = before.mutexWaitNext
  waitHead : after.waitHead = before.waitHead
  waitTail : after.waitTail = before.waitTail

theorem OnlyRings.refl (kernel : Kernel) : OnlyRings kernel kernel := ⟨rfl, rfl, rfl, rfl⟩

theorem OnlyRings.trans {first second third : Kernel} (left : OnlyRings first second)
    (right : OnlyRings second third) : OnlyRings first third :=
  ⟨right.core.trans left.core, right.waitNext.trans left.waitNext,
    right.waitHead.trans left.waitHead, right.waitTail.trans left.waitTail⟩

theorem ringInsert_onlyRings {kernel result : Kernel} {bucket : Bucket} {tcb : Addr}
    (returned : ringInsert kernel bucket tcb = some result) : OnlyRings kernel result := by
  unfold ringInsert at returned
  split at returned
  · cases returned
    exact ⟨rfl, rfl, rfl, rfl⟩
  · obtain ⟨tail, _, rfl⟩ := Option.map_eq_some_iff.mp returned
    exact ⟨rfl, rfl, rfl, rfl⟩

theorem schedulerAddTask_onlyRings {kernel result : Kernel} {tcb : Addr} {status : Status}
    (ready : kernel.state tcb = .ready)
    (returned : schedulerAddTask kernel (some tcb) = some (status, result)) :
    OnlyRings kernel result := by
  simp only [schedulerAddTask, ready, reduceCtorEq, if_false] at returned
  obtain ⟨inserted, insertion, equal⟩ := Option.map_eq_some_iff.mp returned
  have recorded : OnlyRings kernel (kernel.recordAddCall tcb) := ⟨rfl, rfl, rfl, rfl⟩
  have frame := recorded.trans (ringInsert_onlyRings insertion)
  have insertedReady : inserted.state tcb = .ready := by rw [frame.core, ready]
  rw [if_pos (by simp [insertedReady])] at equal
  cases equal
  refine ⟨?_, frame.waitNext, frame.waitHead, frame.waitTail⟩
  have same : Function.update inserted.state tcb .ready = inserted.state := by
    rw [← insertedReady, Function.update_eq_self]
  rw [← frame.core, same]

theorem schedulerRemoveTask_onlyRings {kernel result : Kernel} {tcb : Option Addr}
    (returned : schedulerRemoveTask kernel tcb = some result) : OnlyRings kernel result := by
  cases tcb with
  | none =>
      cases returned
      exact OnlyRings.refl kernel
  | some tcb =>
      simp only [schedulerRemoveTask] at returned
      repeat' split at returned
      all_goals first
        | contradiction
        | cases returned; exact ⟨rfl, rfl, rfl, rfl⟩
        | obtain ⟨tail, _, rfl⟩ := Option.map_eq_some_iff.mp returned; exact ⟨rfl, rfl, rfl, rfl⟩

/-- A task that is not READY keeps its place and only its bucket number changes;
a READY one is moved.  Either way the bucket number is the new one. -/
theorem schedulerRebucketTask_onlyRings {kernel result : Kernel} {tcb : Addr}
    {oldBucket newBucket : Bucket} (stored : kernel.prioBucket tcb = newBucket)
    (returned : schedulerRebucketTask kernel (some tcb) oldBucket newBucket = some result) :
    OnlyRings kernel result := by
  have same : Function.update kernel.prioBucket tcb newBucket = kernel.prioBucket := by
    rw [← stored, Function.update_eq_self]
  unfold schedulerRebucketTask at returned
  dsimp only at returned
  split at returned
  · cases returned
    exact OnlyRings.refl kernel
  · split at returned
    · rename_i ready
      obtain ⟨removed, removal, rest⟩ := Option.bind_eq_some_iff.mp returned
      obtain ⟨⟨status, added⟩, addition, equal⟩ := Option.bind_eq_some_iff.mp rest
      cases equal
      have removedFrame := schedulerRemoveTask_onlyRings removal
      have removedReady : removed.state tcb = .ready := by rw [removedFrame.core, ready]
      have addedFrame := schedulerAddTask_onlyRings (by exact removedReady) addition
      refine ⟨?_, addedFrame.waitNext.trans removedFrame.waitNext,
        addedFrame.waitHead.trans removedFrame.waitHead,
        addedFrame.waitTail.trans removedFrame.waitTail⟩
      rw [addedFrame.core]
      dsimp only
      rw [removedFrame.core]
      simp [same]
    · cases returned
      refine ⟨?_, rfl, rfl, rfl⟩
      simp [same]

/-! ### The rings as lists -/

theorem ring_split {next : Addr → Option Addr} {head : Addr} {items : List Addr}
    (ring : IsRing next (some head) items) :
    ∃ rest, items = head :: rest ∧ head ∉ rest := by
  cases items with
  | nil => exact absurd (ring.anchored rfl) (by simp)
  | cons first rest =>
      have same : first = head := (Option.some.inj ring.closed.1).symm
      subst first
      exact ⟨rest, rfl, (List.nodup_cons.mp ring.distinct).1⟩

theorem findTail_ring {next : Addr → Option Addr} {head last : Addr} {front : List Addr}
    {fuel : Nat} (ring : IsRing next (some head) (front ++ [last]))
    (enough : (front ++ [last]).length ≤ fuel) :
    findTail next head fuel head = some last := by
  obtain ⟨rest, split, outside⟩ := ring_split ring
  refine findTail_eq_last ring.closed ?_ enough
  rw [split]
  exact outside

theorem findInRing_ring {next : Addr → Option Addr} {head tcb : Addr}
    {before after : List Addr} {fuel : Nat}
    (ring : IsRing next (some head) (before ++ tcb :: after))
    (enough : (before ++ tcb :: after).length ≤ fuel) :
    findInRing next head tcb fuel none head = some (.found before.getLast?) := by
  obtain ⟨rest, split, outside⟩ := ring_split ring
  obtain ⟨middle, frontPath, backPath⟩ :=
    (path_append next _ _ before (tcb :: after)).mp ring.closed
  have path : Path next (some head) (before ++ [tcb]) (next tcb) := by
    rw [path_concat]
    exact ⟨backPath.1 ▸ frontPath, rfl⟩
  have notBefore : tcb ∉ before := fun inside =>
    (List.nodup_append.mp ring.distinct).2.2 tcb inside tcb List.mem_cons_self rfl
  have later : head ∉ (before ++ [tcb]).tail := by
    have front : (before ++ [tcb]).tail <+: (before ++ tcb :: after).tail := by
      cases before with
      | nil => exact List.nil_prefix
      | cons first others => exact ⟨after, by simp⟩
    rw [split] at front
    exact fun inside => outside (front.subset inside)
  rw [List.length_append, List.length_cons] at enough
  rw [findInRing_found path notBefore later (by omega), Option.or_none]

theorem ring_alone {next : Addr → Option Addr} {head : Option Addr} {tcb : Addr}
    {before after : List Addr} (ring : IsRing next head (before ++ tcb :: after))
    (selfLoop : next tcb = some tcb) : before = [] ∧ after = [] := by
  obtain ⟨middle, frontPath, backPath⟩ :=
    (path_append next _ _ before (tcb :: after)).mp ring.closed
  have distinct := List.nodup_append.mp ring.distinct
  have noAfter : after = [] := by
    cases after with
    | nil => rfl
    | cons second others =>
        have same : second = tcb := Option.some.inj (backPath.2.1.symm.trans selfLoop)
        exact absurd (by simp [same]) (List.nodup_cons.mp distinct.2.1).1
  subst after
  refine ⟨?_, rfl⟩
  cases before with
  | nil => rfl
  | cons first others =>
      have headIs : head = some tcb := backPath.2.symm.trans selfLoop
      have same : first = tcb := Option.some.inj (frontPath.1.symm.trans headIs)
      exact absurd same (distinct.2.2 first List.mem_cons_self tcb (by simp))

/-- The ready rings stand for the lists `rings`, and every call of
`scheduler_add_task` so far was made for a task in none of them. -/
structure Kernel.RingsAre (kernel : Kernel) (rings : Bucket → List Addr) : Prop where
  family : RingFamily kernel.nextReady kernel.readyHead rings
  fresh : ∀ call ∈ kernel.addCalls, call.Fresh

variable {kernel : Kernel} {rings : Bucket → List Addr}

theorem ringInsert_spec {bucket : Bucket} {tcb : Addr}
    (family : RingFamily kernel.nextReady kernel.readyHead rings)
    (enough : (rings bucket).length ≤ kernel.walkLimit)
    (absent : ∀ other, tcb ∉ rings other) :
    ∃ result, ringInsert kernel bucket tcb = some result ∧
      result.addCalls = kernel.addCalls ∧
      RingFamily result.nextReady result.readyHead
        (Function.update rings bucket (rings bucket ++ [tcb])) := by
  have ring := family.ring bucket
  have foreign : ∀ different, different ≠ bucket →
      ∀ item ∈ rings bucket ++ [tcb], item ∉ rings different := by
    intro different apart item member inside
    rcases List.mem_append.mp member with old | new
    · exact apart (family.apart different bucket item inside old)
    · rw [List.mem_singleton] at new
      exact absent different (new ▸ inside)
  unfold ringInsert
  cases headAt : kernel.readyHead bucket with
  | none =>
      have empty : rings bucket = [] := by
        have heads := ring.head_eq
        rw [headAt] at heads
        exact List.head?_eq_none_iff.mp heads.symm
      refine ⟨_, rfl, rfl, ?_⟩
      rw [empty, List.nil_append]
      apply family.replace bucket (isRing_singleton kernel.nextReady tcb)
      · intro item _ outside
        exact Function.update_of_ne (by simpa using outside) _ _
      · simpa [empty] using foreign
  | some head =>
      rw [headAt] at ring
      obtain ⟨rest, split, _⟩ := ring_split ring
      obtain ⟨front, last, shape⟩ : ∃ front last, rings bucket = front ++ [last] :=
        (List.eq_nil_or_concat' (rings bucket)).resolve_left (by simp [split])
      rw [shape] at ring enough
      have found := findTail_ring ring enough
      dsimp only
      rw [found]
      refine ⟨_, rfl, rfl, ?_⟩
      have new : tcb ∉ front ++ [last] := shape ▸ absent bucket
      have inserted := ring.insert new
      have replaced := family.replace bucket inserted ?_ ?_
      · have kept : Function.update kernel.readyHead bucket (some head) = kernel.readyHead := by
          rw [← headAt, Function.update_eq_self]
        rw [kept, ← shape] at replaced
        exact replaced
      · intro item outside outsideNew
        have notLast : item ≠ last := by
          rintro rfl
          exact outside (by simp [shape])
        have notNew : item ≠ tcb := by
          rintro rfl
          exact outsideNew (by simp)
        rw [Function.update_of_ne notNew, Function.update_of_ne notLast]
      · rw [← shape]
        exact foreign

theorem schedulerAddTask_lists {tcb : Addr} (lists : kernel.RingsAre rings)
    (enough : (rings (kernel.prioBucket tcb)).length ≤ kernel.walkLimit)
    (absent : ∀ bucket, tcb ∉ rings bucket) (alive : kernel.state tcb ≠ .terminated) :
    ∃ result, schedulerAddTask kernel (some tcb) = some (.ok, result) ∧
      result.config = kernel.config ∧
      result.RingsAre (Function.update rings (kernel.prioBucket tcb)
        (rings (kernel.prioBucket tcb) ++ [tcb])) := by
  obtain ⟨inserted, insertion, calls, family⟩ :=
    @ringInsert_spec (kernel.recordAddCall tcb) rings (kernel.prioBucket tcb) tcb
      lists.family enough absent
  have config : inserted.config = kernel.config := by
    rw [(ringInsert_onlyRings insertion).core]
    rfl
  have fresh : ∀ call ∈ inserted.addCalls, call.Fresh := by
    intro call member
    have recorded : call ∈ (kernel.recordAddCall tcb).addCalls := calls ▸ member
    rcases List.mem_cons.mp recorded with rfl | earlier
    · intro bucket reached
      exact absent bucket (((lists.family.ring bucket).reaches_iff tcb).mp reached)
    · exact lists.fresh call earlier
  simp only [schedulerAddTask, if_neg alive, insertion, Option.map_some]
  split
  · exact ⟨_, rfl, config, family, fresh⟩
  · exact ⟨inserted, rfl, config, family, fresh⟩

theorem schedulerAddTask_spec {tcb : Addr} (lists : kernel.RingsAre rings)
    (enough : (rings (kernel.prioBucket tcb)).length ≤ kernel.walkLimit)
    (absent : ∀ bucket, tcb ∉ rings bucket) (ready : kernel.state tcb = .ready) :
    ∃ result, schedulerAddTask kernel (some tcb) = some (.ok, result) ∧
      OnlyRings kernel result ∧
      result.RingsAre (Function.update rings (kernel.prioBucket tcb)
        (rings (kernel.prioBucket tcb) ++ [tcb])) := by
  obtain ⟨result, returned, _, added⟩ :=
    schedulerAddTask_lists lists enough absent (by rw [ready]; exact TaskState.noConfusion)
  exact ⟨result, returned, schedulerAddTask_onlyRings ready returned, added⟩

theorem schedulerRemoveTask_absent {tcb : Addr} (lists : kernel.RingsAre rings)
    (enough : (rings (kernel.prioBucket tcb)).length ≤ kernel.walkLimit)
    (absent : tcb ∉ rings (kernel.prioBucket tcb)) :
    schedulerRemoveTask kernel (some tcb) = some kernel := by
  have ring := lists.family.ring (kernel.prioBucket tcb)
  cases headAt : kernel.readyHead (kernel.prioBucket tcb) with
  | none => simp [schedulerRemoveTask, headAt]
  | some head =>
      rw [headAt] at ring
      obtain ⟨rest, split, outside⟩ := ring_split ring
      rw [split] at ring absent enough
      have searched : findInRing kernel.nextReady head tcb kernel.walkLimit none head =
          some .absent :=
        findInRing_absent ring.closed absent outside
          (by simp only [List.length_cons] at enough; omega)
      simp [schedulerRemoveTask, headAt, searched]

theorem schedulerRemoveTask_present {tcb : Addr} (lists : kernel.RingsAre rings)
    (enough : (rings (kernel.prioBucket tcb)).length ≤ kernel.walkLimit)
    {before after : List Addr}
    (shape : rings (kernel.prioBucket tcb) = before ++ tcb :: after) :
    ∃ result, schedulerRemoveTask kernel (some tcb) = some result ∧
      result.addCalls = kernel.addCalls ∧
      RingFamily result.nextReady result.readyHead
        (Function.update rings (kernel.prioBucket tcb) (before ++ after)) := by
  generalize bucketAt : kernel.prioBucket tcb = bucket at enough shape
  have ring := lists.family.ring bucket
  have member : tcb ∈ rings bucket := by simp [shape]
  obtain ⟨head, headAt⟩ : ∃ head, kernel.readyHead bucket = some head := by
    obtain ⟨first, _, starts⟩ := ring.closed.exists_start (List.ne_nil_of_mem member)
    exact ⟨first, starts⟩
  rw [headAt, shape] at ring
  rw [shape] at enough
  have searched := findInRing_ring ring enough
  have foreign : ∀ different, different ≠ bucket →
      ∀ item ∈ before ++ after, item ∉ rings different := by
    intro different apart item inside elsewhere
    refine apart (lists.family.apart different bucket item elsewhere ?_)
    rw [shape]
    simp only [List.mem_append, List.mem_cons] at inside ⊢
    tauto
  have frame : ∀ (node : Addr) (value : Option Addr), node ∈ rings bucket →
      ∀ item, item ∉ rings bucket → item ∉ before ++ after →
        Function.update (Function.update kernel.nextReady node value) tcb none item =
          kernel.nextReady item := by
    intro node value inside item outside _
    have notTcb : item ≠ tcb := fun same => outside (same ▸ member)
    have notNode : item ≠ node := fun same => outside (same ▸ inside)
    rw [Function.update_of_ne notTcb, Function.update_of_ne notNode]
  simp only [schedulerRemoveTask, bucketAt, headAt, searched]
  by_cases selfLoop : kernel.nextReady tcb = some tcb
  · obtain ⟨rfl, rfl⟩ := ring_alone ring selfLoop
    rw [if_pos selfLoop]
    refine ⟨_, rfl, rfl, ?_⟩
    have replaced := lists.family.replace bucket (isRing_empty _) (frame tcb none member) foreign
    simpa using replaced
  · rw [if_neg selfLoop]
    rcases List.eq_nil_or_concat' before with rfl | ⟨earlier, prev, rfl⟩
    · have isHead : head = tcb := Option.some.inj ring.closed.1
      subst head
      rcases List.eq_nil_or_concat' after with rfl | ⟨middle, last, rfl⟩
      · exact absurd ring.closed.2 selfLoop
      · have tailFound := @findTail_ring _ _ _ (tcb :: middle) _ ring enough
        simp only [List.getLast?_nil, tailFound]
        exact ⟨_, rfl, rfl, lists.family.replace bucket ring.remove_first
          (frame last _ (by simp [shape])) foreign⟩
    · simp only [List.getLast?_concat]
      refine ⟨_, rfl, rfl, ?_⟩
      have replaced := lists.family.replace bucket ring.remove_later
        (frame prev _ (by simp [shape])) foreign
      rw [← headAt, Function.update_eq_self] at replaced
      exact replaced

/-- A task in the ring of its bucket leaves it and the others keep their order;
a task that is not there changes nothing. -/
theorem schedulerRemoveTask_spec {tcb : Addr} (lists : kernel.RingsAre rings)
    (enough : (rings (kernel.prioBucket tcb)).length ≤ kernel.walkLimit) :
    ∃ result, schedulerRemoveTask kernel (some tcb) = some result ∧
      OnlyRings kernel result ∧
      result.RingsAre (Function.update rings (kernel.prioBucket tcb)
        ((rings (kernel.prioBucket tcb)).erase tcb)) := by
  by_cases member : tcb ∈ rings (kernel.prioBucket tcb)
  · obtain ⟨before, after, shape⟩ := List.append_of_mem member
    obtain ⟨result, returned, calls, family⟩ := schedulerRemoveTask_present lists enough shape
    have notBefore : tcb ∉ before := by
      have distinct := (lists.family.ring (kernel.prioBucket tcb)).distinct
      rw [shape] at distinct
      exact fun inside =>
        (List.nodup_append.mp distinct).2.2 tcb inside tcb List.mem_cons_self rfl
    refine ⟨result, returned, schedulerRemoveTask_onlyRings returned, ?_, ?_⟩
    · rw [shape, List.erase_append_right _ notBefore, List.erase_cons_head]
      exact family
    · rw [calls]
      exact lists.fresh
  · refine ⟨kernel, schedulerRemoveTask_absent lists enough member, OnlyRings.refl kernel, ?_⟩
    rw [List.erase_of_not_mem member, Function.update_eq_self]
    exact lists

/-- A READY task that is in the ring of the old bucket, or in none, goes to the end
of the new one. -/
theorem schedulerRebucketTask_lists {tcb : Addr} {oldBucket newBucket : Bucket}
    (lists : kernel.RingsAre rings)
    (enough : ∀ bucket, (rings bucket).length ≤ kernel.walkLimit)
    (ready : kernel.state tcb = .ready)
    (elsewhere : ∀ bucket, bucket ≠ oldBucket → tcb ∉ rings bucket)
    (different : oldBucket ≠ newBucket) :
    ∃ result, schedulerRebucketTask kernel (some tcb) oldBucket newBucket = some result ∧
      result.config = kernel.config ∧
      result.RingsAre (Function.update
        (Function.update rings oldBucket ((rings oldBucket).erase tcb)) newBucket
        (rings newBucket ++ [tcb])) := by
  let moved : Kernel :=
    { kernel with prioBucket := Function.update kernel.prioBucket tcb oldBucket }
  have movedBucket : moved.prioBucket tcb = oldBucket := by simp [moved]
  obtain ⟨removed, removal, removedFrame, removedLists⟩ :=
    @schedulerRemoveTask_spec moved rings tcb ⟨lists.family, lists.fresh⟩
      (by rw [movedBucket]; exact enough oldBucket)
  rw [movedBucket] at removedLists
  let back : Kernel :=
    { removed with prioBucket := Function.update removed.prioBucket tcb newBucket }
  have backBucket : back.prioBucket tcb = newBucket := by simp [back]
  have backReady : back.state tcb = .ready := by
    have same : removed.state = kernel.state := by rw [removedFrame.core]
    exact (congrFun same tcb).trans ready
  have absent : ∀ bucket,
      tcb ∉ Function.update rings oldBucket ((rings oldBucket).erase tcb) bucket := by
    intro bucket
    by_cases atOld : bucket = oldBucket
    · rw [atOld, Function.update_self]
      exact (lists.family.ring oldBucket).distinct.not_mem_erase
    · rw [Function.update_of_ne atOld]
      exact elsewhere bucket atOld
  have newItems : Function.update rings oldBucket ((rings oldBucket).erase tcb) newBucket =
      rings newBucket := Function.update_of_ne (Ne.symm different) _ _
  have sameConfig : back.config = kernel.config := by
    have same : removed.config = kernel.config := by rw [removedFrame.core]
    exact same
  have sameLimit : back.walkLimit = kernel.walkLimit := congrArg Config.poolSize sameConfig
  obtain ⟨result, addition, addedFrame, addedLists⟩ :=
    @schedulerAddTask_spec back _ tcb
      ⟨removedLists.family, removedLists.fresh⟩
      (by rw [backBucket, newItems, sameLimit]; exact enough newBucket) absent backReady
  have returned : schedulerRebucketTask kernel (some tcb) oldBucket newBucket = some result := by
    unfold schedulerRebucketTask
    dsimp only
    rw [if_neg different, if_pos ready, removal]
    exact congrArg (Option.bind · fun added => some added.2) addition
  have config : result.config = kernel.config := by
    rw [addedFrame.core]
    exact sameConfig
  rw [backBucket, newItems] at addedLists
  exact ⟨result, returned, config, addedLists⟩

theorem schedulerRebucketTask_spec {tcb : Addr} {oldBucket newBucket : Bucket}
    (lists : kernel.RingsAre rings)
    (enough : ∀ bucket, (rings bucket).length ≤ kernel.walkLimit)
    (stored : kernel.prioBucket tcb = newBucket) (ready : kernel.state tcb = .ready)
    (elsewhere : ∀ bucket, bucket ≠ oldBucket → tcb ∉ rings bucket)
    (different : oldBucket ≠ newBucket) :
    ∃ result, schedulerRebucketTask kernel (some tcb) oldBucket newBucket = some result ∧
      OnlyRings kernel result ∧
      result.RingsAre (Function.update
        (Function.update rings oldBucket ((rings oldBucket).erase tcb)) newBucket
        (rings newBucket ++ [tcb])) := by
  obtain ⟨result, returned, _, moved⟩ :=
    schedulerRebucketTask_lists lists enough ready elsewhere different
  exact ⟨result, returned, schedulerRebucketTask_onlyRings stored returned, moved⟩

theorem firstReady_eq_some {bucket : Bucket} {sel : Addr}
    (found : firstReady kernel = some (bucket, sel)) :
    kernel.readyHead bucket = some sel ∧
      ∀ lower, lower < bucket → kernel.readyHead lower = none := by
  obtain ⟨before, index, after, split, chosen, skipped⟩ :=
    List.findSome?_eq_some_iff.mp found
  obtain ⟨head, headAt, pair⟩ := Option.map_eq_some_iff.mp chosen
  cases pair
  refine ⟨headAt, ?_⟩
  intro lower below
  have member : lower ∈ List.finRange 8 := List.mem_finRange lower
  have sorted : (List.finRange 8).Pairwise (· < ·) := List.pairwise_lt_finRange 8
  rw [split] at member sorted
  rcases List.mem_append.mp member with earlier | later
  · exact Option.map_eq_none_iff.mp (skipped lower earlier)
  · rcases List.mem_cons.mp later with same | behind
    · exact absurd (same ▸ below) (Fin.lt_irrefl bucket)
    · have above := List.rel_of_pairwise_cons (List.pairwise_append.mp sorted).2.1 behind
      exact absurd (Fin.lt_trans below above) (Fin.lt_irrefl lower)

theorem preemptCurrent_links (kernel : Kernel) :
    (preemptCurrent kernel).toLinks = kernel.toLinks ∧
      (preemptCurrent kernel).addCalls = kernel.addCalls := by
  unfold preemptCurrent
  split
  · exact ⟨rfl, rfl⟩
  · split <;> exact ⟨rfl, rfl⟩

/-- With a task in some ring, the selected one is the head of the first
non-empty ring, and that ring is turned by one. -/
theorem schedulerGetNext_spec (lists : kernel.RingsAre rings)
    (someTask : ∃ bucket, rings bucket ≠ []) :
    ∃ bucket sel rest result, rings bucket = sel :: rest ∧
      (∀ lower, lower < bucket → rings lower = []) ∧
      schedulerGetNext kernel = some (sel, result) ∧
      OnlyRings (dispatch (preemptCurrent kernel) sel) result ∧
      result.RingsAre (Function.update rings bucket (rest ++ [sel])) := by
  have links := preemptCurrent_links kernel
  have emptyRing : ∀ bucket, (preemptCurrent kernel).readyHead bucket = none →
      rings bucket = [] := by
    intro bucket headAt
    rw [links.1, (lists.family.ring bucket).head_eq] at headAt
    exact List.head?_eq_none_iff.mp headAt
  cases found : firstReady (preemptCurrent kernel) with
  | none =>
      obtain ⟨bucket, nonempty⟩ := someTask
      have skipped := List.findSome?_eq_none_iff.mp found bucket (List.mem_finRange bucket)
      exact absurd (emptyRing bucket (Option.map_eq_none_iff.mp skipped)) nonempty
  | some choice =>
      obtain ⟨bucket, sel⟩ := choice
      obtain ⟨headAt, skipped⟩ := firstReady_eq_some found
      rw [links.1] at headAt
      have ring := lists.family.ring bucket
      rw [headAt] at ring
      obtain ⟨rest, split, _⟩ := ring_split ring
      rw [split] at ring
      have returned : schedulerGetNext kernel = some (sel, dispatch
          { preemptCurrent kernel with
            readyHead := Function.update (preemptCurrent kernel).readyHead bucket
              ((preemptCurrent kernel).nextReady sel) } sel) := by
        simp only [schedulerGetNext, found]
      refine ⟨bucket, sel, rest, _, split, fun lower below => emptyRing lower (skipped lower below),
        returned, ⟨rfl, rfl, rfl, rfl⟩, ?_, ?_⟩
      · have turned := lists.family.replace bucket ring.rotate (fun _ _ _ => rfl) (by
          intro different apart item member inside
          refine apart (lists.family.apart different bucket item inside ?_)
          rw [split]
          simp only [List.mem_append, List.mem_cons] at member ⊢
          tauto)
        simpa [dispatch, links.1] using turned
      · simpa [dispatch, links.2] using lists.fresh

end MicrokernelRtos
