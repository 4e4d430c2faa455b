/-
The wait lists of mutex.c, semaphore.c and msgqueue.c.

The three files hold copies of the same pointer code over `mutex_wait_next`,
with the head and tail fields of their own object.  One definition stands for
the copies and takes the list as an argument.  The mutex alone removes the most
urgent waiter instead of the first.
-/

import MicrokernelRtos.Scheduler

namespace MicrokernelRtos

open Linked

/-! ### The code -/

/-- `_wait_enqueue_tail` (mutex.c), `_wait_enqueue` (semaphore.c) and
`_tcb_enqueue_tail` (msgqueue.c).  A NULL tail behind a head is dereferenced. -/
def tcbEnqueueTail (kernel : Kernel) (list : WaitId) (t : Addr) : Option Kernel :=
  let next := Function.update kernel.mutexWaitNext t none
  match kernel.waitHead list with
  | none =>
      some
        { kernel with
          mutexWaitNext := next
          waitHead := Function.update kernel.waitHead list (some t)
          waitTail := Function.update kernel.waitTail list (some t) }
  | some _ =>
      (kernel.waitTail list).map fun tail =>
        { kernel with
          mutexWaitNext := Function.update next tail (some t)
          waitTail := Function.update kernel.waitTail list (some t) }

def findWaiter (next : Addr → Option Addr) (t : Addr) :
    Nat → Option Addr → Option Addr → Option RingSearch
  | _, _, none => some .absent
  | 0, _, some _ => none
  | fuel + 1, prev, some walk =>
      if walk = t then some (.found prev) else findWaiter next t fuel (some walk) (next walk)

/-- `_wait_unlink` (mutex.c and semaphore.c) and `_tcb_unlink` (msgqueue.c). -/
def tcbUnlink (kernel : Kernel) (list : WaitId) (t : Addr) : Option Kernel :=
  match kernel.waitHead list with
  | none => some kernel
  | some first =>
      match findWaiter kernel.mutexWaitNext t kernel.walkLimit none (some first) with
      | none => none
      | some .absent => some kernel
      | some (.found none) =>
          let head := kernel.mutexWaitNext t
          let tail := if kernel.waitTail list = some t then none else kernel.waitTail list
          some
            { kernel with
              mutexWaitNext := Function.update kernel.mutexWaitNext t none
              waitHead := Function.update kernel.waitHead list head
              waitTail := Function.update kernel.waitTail list
                (if head = none then none else tail) }
      | some (.found (some prev)) =>
          some
            { kernel with
              mutexWaitNext := Function.update
                (Function.update kernel.mutexWaitNext prev (kernel.mutexWaitNext t)) t none
              waitTail := Function.update kernel.waitTail list
                (if kernel.waitTail list = some t then some prev else kernel.waitTail list) }

/-- `_wait_pop_head` (semaphore.c) and `_tcb_pop_head` (msgqueue.c). -/
def tcbPopHead (kernel : Kernel) (list : WaitId) : Option Addr × Kernel :=
  match kernel.waitHead list with
  | none => (none, kernel)
  | some w =>
      let head := kernel.mutexWaitNext w
      (some w,
        { kernel with
          mutexWaitNext := Function.update kernel.mutexWaitNext w none
          waitHead := Function.update kernel.waitHead list head
          waitTail := Function.update kernel.waitTail list
            (if head = none then none else kernel.waitTail list) })

/-- The search loop of `_wait_pop_highest`: the best waiter so far and its
predecessor are kept apart from the walk. -/
def findHighest (next : Addr → Option Addr) (priority : Addr → Nat) :
    Nat → Addr → Option Addr → Option Addr → Option Addr → Option (Addr × Option Addr)
  | _, best, bestPrev, _, none => some (best, bestPrev)
  | 0, _, _, _, some _ => none
  | fuel + 1, best, bestPrev, prev, some walk =>
      if priority walk < priority best then
        findHighest next priority fuel walk prev (some walk) (next walk)
      else findHighest next priority fuel best bestPrev (some walk) (next walk)

def waitPopHighest (kernel : Kernel) (list : WaitId) : Option (Option Addr × Kernel) :=
  match kernel.waitHead list with
  | none => some (none, kernel)
  | some first =>
      match findHighest kernel.mutexWaitNext kernel.priority kernel.walkLimit first none none
        (some first) with
      | none => none
      | some (best, none) =>
          let head := kernel.mutexWaitNext best
          some (some best,
            { kernel with
              mutexWaitNext := Function.update kernel.mutexWaitNext best none
              waitHead := Function.update kernel.waitHead list head
              waitTail := Function.update kernel.waitTail list
                (if head = none then none else kernel.waitTail list) })
      | some (best, some bestPrev) =>
          some (some best,
            { kernel with
              mutexWaitNext := Function.update
                (Function.update kernel.mutexWaitNext bestPrev (kernel.mutexWaitNext best))
                best none
              waitTail := Function.update kernel.waitTail list
                (if kernel.waitTail list = some best then some bestPrev
                  else kernel.waitTail list) })

def minWaitLoop (next : Addr → Option Addr) (priority : Addr → Nat) :
    Nat → Nat → Option Addr → Option Nat
  | _, minPri, none => some minPri
  | 0, _, some _ => none
  | fuel + 1, minPri, some w =>
      minWaitLoop next priority fuel (if priority w < minPri then priority w else minPri) (next w)

def minWaitPriorityValue (kernel : Kernel) (list : WaitId) : Option Nat :=
  match kernel.waitHead list with
  | none => some priorityMax
  | some w =>
      minWaitLoop kernel.mutexWaitNext kernel.priority kernel.walkLimit (kernel.priority w)
        (kernel.mutexWaitNext w)

/-! ### Frames -/

/-- Nothing but the wait lists differs. -/
structure OnlyWaits (before after : Kernel) : Prop where
  core : after.toCore = before.toCore
  nextReady : after.nextReady = before.nextReady
  readyHead : after.readyHead = before.readyHead
  addCalls : after.addCalls = before.addCalls

theorem OnlyWaits.refl (kernel : Kernel) : OnlyWaits kernel kernel := ⟨rfl, rfl, rfl, rfl⟩

theorem OnlyWaits.ringsAre {before after : Kernel} {rings : Bucket → List Addr}
    (frame : OnlyWaits before after) (lists : before.RingsAre rings) : after.RingsAre rings := by
  constructor
  · rw [frame.nextReady, frame.readyHead]
    exact lists.family
  · rw [frame.addCalls]
    exact lists.fresh

theorem tcbEnqueueTail_onlyWaits {kernel result : Kernel} {list : WaitId} {t : Addr}
    (returned : tcbEnqueueTail kernel list t = some result) : OnlyWaits kernel result := by
  simp only [tcbEnqueueTail] at returned
  split at returned
  · cases returned
    exact ⟨rfl, rfl, rfl, rfl⟩
  · obtain ⟨tail, _, rfl⟩ := Option.map_eq_some_iff.mp returned
    exact ⟨rfl, rfl, rfl, rfl⟩

theorem tcbEnqueueTail_heads {kernel result : Kernel} {list other : WaitId} {t : Addr}
    (returned : tcbEnqueueTail kernel list t = some result) (different : other ≠ list) :
    result.waitHead other = kernel.waitHead other := by
  simp only [tcbEnqueueTail] at returned
  split at returned
  · cases returned
    exact Function.update_of_ne different _ _
  · obtain ⟨tail, _, rfl⟩ := Option.map_eq_some_iff.mp returned
    rfl

theorem tcbUnlink_onlyWaits {kernel result : Kernel} {list : WaitId} {t : Addr}
    (returned : tcbUnlink kernel list t = some result) : OnlyWaits kernel result := by
  simp only [tcbUnlink] at returned
  repeat' split at returned
  all_goals first
    | contradiction
    | cases returned; exact ⟨rfl, rfl, rfl, rfl⟩

theorem tcbPopHead_onlyWaits (kernel : Kernel) (list : WaitId) :
    OnlyWaits kernel (tcbPopHead kernel list).2 := by
  simp only [tcbPopHead]
  split <;> exact ⟨rfl, rfl, rfl, rfl⟩

theorem waitPopHighest_onlyWaits {kernel result : Kernel} {list : WaitId}
    {popped : Option Addr} (returned : waitPopHighest kernel list = some (popped, result)) :
    OnlyWaits kernel result := by
  simp only [waitPopHighest] at returned
  repeat' split at returned
  all_goals first
    | contradiction
    | cases returned; exact ⟨rfl, rfl, rfl, rfl⟩

/-! ### The walks -/

theorem findWaiter_found {next : Addr → Option Addr} {t : Addr} {before after : List Addr}
    {start stop prev : Option Addr} {fuel : Nat}
    (path : Path next start (before ++ t :: after) stop) (fresh : t ∉ before)
    (enough : before.length < fuel) :
    findWaiter next t fuel prev start = some (.found (before.getLast?.or prev)) := by
  induction before generalizing start prev fuel with
  | nil =>
      obtain ⟨rfl, _⟩ := path
      cases fuel with
      | zero => simp at enough
      | succ fuel => simp [findWaiter]
  | cons first rest ih =>
      obtain ⟨rfl, onward⟩ := path
      cases fuel with
      | zero => simp at enough
      | succ fuel =>
          have notFirst : first ≠ t := fun same => fresh (by simp [same])
          simp only [List.length_cons] at enough
          rw [findWaiter, if_neg notFirst,
            ih onward (fun inside => fresh (List.mem_cons_of_mem _ inside)) (by omega)]
          cases rest with
          | nil => rfl
          | cons item items => simp [List.getLast?_cons]

theorem findWaiter_absent {next : Addr → Option Addr} {t : Addr} {items : List Addr}
    {start prev : Option Addr} {fuel : Nat} (path : Path next start items none)
    (absent : t ∉ items) (enough : items.length ≤ fuel) :
    findWaiter next t fuel prev start = some .absent := by
  induction items generalizing start prev fuel with
  | nil =>
      cases path
      cases fuel <;> rfl
  | cons first rest ih =>
      obtain ⟨rfl, onward⟩ := path
      cases fuel with
      | zero => simp at enough
      | succ fuel =>
          have notFirst : first ≠ t := fun same => absent (by simp [same])
          simp only [List.length_cons] at enough
          rw [findWaiter, if_neg notFirst]
          exact ih onward (fun inside => absent (List.mem_cons_of_mem _ inside)) (by omega)

/-- What the search loop has found when it stands behind `seen`: the first of
the most urgent waiters, with its predecessor. -/
structure HighestSoFar (priority : Addr → Nat) (seen : List Addr) (best : Addr)
    (bestPrev : Option Addr) : Prop where
  split : ∃ before after, seen = before ++ best :: after ∧ bestPrev = before.getLast? ∧
    (∀ item ∈ before, priority best < priority item) ∧
    ∀ item ∈ after, priority best ≤ priority item

theorem findHighest_spec {next : Addr → Option Addr} {priority : Addr → Nat}
    {seen rest : List Addr} {best : Addr} {bestPrev walk : Option Addr} {fuel : Nat}
    (soFar : HighestSoFar priority seen best bestPrev) (path : Path next walk rest none)
    (enough : rest.length ≤ fuel) :
    ∃ winner winnerPrev,
      findHighest next priority fuel best bestPrev seen.getLast? walk =
        some (winner, winnerPrev) ∧
      HighestSoFar priority (seen ++ rest) winner winnerPrev := by
  induction rest generalizing seen best bestPrev walk fuel with
  | nil =>
      cases path
      refine ⟨best, bestPrev, ?_, by simpa using soFar⟩
      cases fuel <;> rfl
  | cons first others ih =>
      obtain ⟨rfl, onward⟩ := path
      obtain ⟨before, after, shape, prevIs, above, atLeast⟩ := soFar.split
      cases fuel with
      | zero => simp at enough
      | succ fuel =>
          simp only [List.length_cons] at enough
          have regroup : seen ++ first :: others = seen ++ [first] ++ others := by simp
          have seenLast : (some first : Option Addr) = (seen ++ [first]).getLast? := by simp
          unfold findHighest
          rw [regroup, seenLast]
          by_cases better : priority first < priority best
          · rw [if_pos better]
            refine ih ⟨seen, [], by simp, rfl, ?_, by simp⟩ onward (by omega)
            intro item member
            rw [shape, List.mem_append, List.mem_cons] at member
            rcases member with inBefore | rfl | inAfter
            · exact better.trans (above item inBefore)
            · exact better
            · exact better.trans_le (atLeast item inAfter)
          · rw [if_neg better]
            refine ih ⟨before, after ++ [first], by simp [shape], prevIs, above, ?_⟩ onward
              (by omega)
            intro item member
            rcases List.mem_append.mp member with inAfter | isFirst
            · exact atLeast item inAfter
            · rw [List.mem_singleton.mp isFirst]
              omega

theorem minWaitLoop_spec {next : Addr → Option Addr} {priority : Addr → Nat}
    {rest : List Addr} {minPri : Nat} {walk : Option Addr} {fuel : Nat}
    (path : Path next walk rest none) (enough : rest.length ≤ fuel) :
    ∃ value, minWaitLoop next priority fuel minPri walk = some value ∧ value ≤ minPri ∧
      (∀ item ∈ rest, value ≤ priority item) ∧
      (value = minPri ∨ ∃ item ∈ rest, value = priority item) := by
  induction rest generalizing minPri walk fuel with
  | nil =>
      cases path
      refine ⟨minPri, ?_, le_refl minPri, by simp, Or.inl rfl⟩
      cases fuel <;> rfl
  | cons first others ih =>
      obtain ⟨rfl, onward⟩ := path
      cases fuel with
      | zero => simp at enough
      | succ fuel =>
          simp only [List.length_cons] at enough
          obtain ⟨value, returned, bound, below, attained⟩ :=
            @ih (if priority first < minPri then priority first else minPri) _ fuel onward
              (by omega)
          refine ⟨value, returned, ?_, ?_, ?_⟩
          · split at bound <;> omega
          · intro item member
            rcases List.mem_cons.mp member with rfl | later
            · split at bound <;> omega
            · exact below item later
          · rcases attained with isMin | ⟨item, member, isItem⟩
            · split at isMin
              · exact Or.inr ⟨first, List.mem_cons_self, isMin⟩
              · exact Or.inl isMin
            · exact Or.inr ⟨item, List.mem_cons_of_mem first member, isItem⟩

/-! ### The wait lists as lists -/

/-- The wait lists stand for the lists `waits`. -/
def Kernel.WaitsAre (kernel : Kernel) (waits : WaitId → List Addr) : Prop :=
  QueueFamily kernel.mutexWaitNext kernel.waitHead kernel.waitTail waits

theorem Kernel.WaitsAre.unique {kernel : Kernel} {left right : WaitId → List Addr}
    (first : kernel.WaitsAre left) (second : kernel.WaitsAre right) : left = right :=
  funext fun list => (first.queue list).path.unique (second.queue list).path

theorem OnlyRings.waitsAre {before after : Kernel} {waits : WaitId → List Addr}
    (frame : OnlyRings before after) (lists : before.WaitsAre waits) : after.WaitsAre waits := by
  unfold Kernel.WaitsAre
  rw [frame.waitNext, frame.waitHead, frame.waitTail]
  exact lists

variable {kernel : Kernel} {waits : WaitId → List Addr} {list : WaitId}

theorem Kernel.WaitsAre.head_eq_none_iff (lists : kernel.WaitsAre waits) :
    kernel.waitHead list = none ↔ waits list = [] := by
  rw [(lists.queue list).head_eq, List.head?_eq_none_iff]

theorem Kernel.WaitsAre.head_eq_some (lists : kernel.WaitsAre waits) {first : Addr}
    {rest : List Addr} (shape : waits list = first :: rest) :
    kernel.waitHead list = some first := by
  rw [(lists.queue list).head_eq, shape]
  rfl

theorem tcbEnqueueTail_spec {t : Addr} (lists : kernel.WaitsAre waits)
    (absent : ∀ other, t ∉ waits other) :
    ∃ result, tcbEnqueueTail kernel list t = some result ∧
      result.WaitsAre (Function.update waits list (waits list ++ [t])) := by
  have queue := lists.queue list
  have foreign : ∀ different, different ≠ list →
      ∀ item ∈ waits list ++ [t], item ∉ waits different := by
    intro different apart item member inside
    rcases List.mem_append.mp member with old | new
    · exact apart (lists.apart different list item inside old)
    · exact absent different (List.mem_singleton.mp new ▸ inside)
  rcases List.eq_nil_or_concat' (waits list) with empty | ⟨front, last, shape⟩
  · have headAt := lists.head_eq_none_iff.mpr empty
    simp only [tcbEnqueueTail, headAt]
    refine ⟨_, rfl, ?_⟩
    rw [empty, List.nil_append]
    refine lists.replace list (isQueue_singleton kernel.mutexWaitNext t) ?_ ?_
    · intro item _ outside
      exact Function.update_of_ne (by simpa using outside) _ _
    · simpa [empty] using foreign
  · have tailAt : kernel.waitTail list = some last := by rw [queue.last, shape]; simp
    obtain ⟨first, headAt⟩ : ∃ first, kernel.waitHead list = some first :=
      Option.ne_none_iff_exists'.mp (fun none => by
        rw [lists.head_eq_none_iff, shape] at none
        simp at none)
    simp only [tcbEnqueueTail, headAt, tailAt]
    refine ⟨_, rfl, ?_⟩
    rw [shape] at queue
    have new : t ∉ front ++ [last] := shape ▸ absent list
    have appended := queue.append new
    have replaced := lists.replace list appended ?_ (shape ▸ foreign)
    · rw [Function.update_eq_self, ← shape] at replaced
      exact replaced
    · intro item outside outsideNew
      have notLast : item ≠ last := by
        rintro rfl
        exact outside (by simp [shape])
      have notNew : item ≠ t := by
        rintro rfl
        exact outsideNew (by simp)
      rw [Function.update_of_ne notLast, Function.update_of_ne notNew]

theorem Kernel.WaitsAre.remove_first (lists : kernel.WaitsAre waits) {first : Addr}
    {rest : List Addr} (shape : waits list = first :: rest) {tail : Option Addr}
    (tailIs : rest ≠ [] → tail = kernel.waitTail list) :
    QueueFamily (Function.update kernel.mutexWaitNext first none)
      (Function.update kernel.waitHead list (kernel.mutexWaitNext first))
      (Function.update kernel.waitTail list
        (if kernel.mutexWaitNext first = none then none else tail))
      (Function.update waits list rest) := by
  have queue := lists.queue list
  rw [shape] at queue
  have emptyIff : kernel.mutexWaitNext first = none ↔ rest = [] := by
    have onward : Path kernel.mutexWaitNext (kernel.mutexWaitNext first) rest none :=
      queue.path.2
    cases rest with
    | nil => exact ⟨fun _ => rfl, fun _ => onward⟩
    | cons second others => simp [onward.1]
  have tails : (if kernel.mutexWaitNext first = none then none else tail) =
      if rest = [] then none else kernel.waitTail list := by
    by_cases empty : rest = []
    · rw [if_pos (emptyIff.mpr empty), if_pos empty]
    · rw [if_neg (fun ended => empty (emptyIff.mp ended)), if_neg empty, tailIs empty]
  rw [tails]
  refine lists.replace list queue.remove_first ?_ ?_
  · intro item outside _
    refine Function.update_of_ne ?_ _ _
    rintro rfl
    exact outside (by simp [shape])
  · intro different apart item member inside
    exact apart (lists.apart different list item inside (by simp [shape, member]))

theorem Kernel.WaitsAre.remove_later (lists : kernel.WaitsAre waits)
    {before after : List Addr} {previous node : Addr}
    (shape : waits list = before ++ [previous] ++ node :: after) :
    QueueFamily
      (Function.update (Function.update kernel.mutexWaitNext previous
        (kernel.mutexWaitNext node)) node none)
      kernel.waitHead
      (Function.update kernel.waitTail list
        (if kernel.waitTail list = some node then some previous else kernel.waitTail list))
      (Function.update waits list (before ++ [previous] ++ after)) := by
  have queue := lists.queue list
  rw [shape] at queue
  have replaced := lists.replace list queue.remove_later ?_ ?_
  · rw [Function.update_eq_self] at replaced
    exact replaced
  · intro item outside _
    have notNode : item ≠ node := by
      rintro rfl
      exact outside (by simp [shape])
    have notPrevious : item ≠ previous := by
      rintro rfl
      exact outside (by simp [shape])
    rw [Function.update_of_ne notNode, Function.update_of_ne notPrevious]
  · intro different apart item member inside
    refine apart (lists.apart different list item inside ?_)
    rw [shape]
    simp only [List.mem_append, List.mem_cons] at member ⊢
    tauto

theorem tcbUnlink_spec {t : Addr} (lists : kernel.WaitsAre waits)
    (enough : (waits list).length ≤ kernel.walkLimit) :
    ∃ result, tcbUnlink kernel list t = some result ∧
      result.WaitsAre (Function.update waits list ((waits list).erase t)) := by
  have queue := lists.queue list
  by_cases member : t ∈ waits list
  · obtain ⟨before, after, shape⟩ := List.append_of_mem member
    have distinct := queue.distinct
    rw [shape] at distinct enough
    have notBefore : t ∉ before := fun inside =>
      (List.nodup_append.mp distinct).2.2 t inside t List.mem_cons_self rfl
    obtain ⟨first, headAt⟩ : ∃ first, kernel.waitHead list = some first :=
      Option.ne_none_iff_exists'.mp (fun none => by
        rw [lists.head_eq_none_iff, shape] at none
        simp at none)
    have path := queue.path
    rw [headAt, shape] at path
    have searched := @findWaiter_found _ _ _ _ _ _ none _ path notBefore
      (by rw [List.length_append, List.length_cons] at enough; omega :
        before.length < kernel.walkLimit)
    rw [Option.or_none] at searched
    simp only [tcbUnlink, headAt, searched]
    rw [shape, List.erase_append_right _ notBefore, List.erase_cons_head]
    rcases List.eq_nil_or_concat' before with rfl | ⟨earlier, prev, rfl⟩
    · simp only [List.getLast?_nil]
      refine ⟨_, rfl, @Kernel.WaitsAre.remove_first _ _ _ lists t after shape _ ?_⟩
      intro nonempty
      refine if_neg ?_
      rw [queue.last, shape, List.nil_append]
      obtain ⟨front, last, rfl⟩ := (List.eq_nil_or_concat' after).resolve_left nonempty
      rw [← List.cons_append, List.getLast?_concat]
      intro same
      exact (List.nodup_cons.mp distinct).1 (by simp [← Option.some.inj same])
    · simp only [List.getLast?_concat]
      exact ⟨_, rfl, lists.remove_later shape⟩
  · rw [List.erase_of_not_mem member, Function.update_eq_self]
    refine ⟨kernel, ?_, lists⟩
    cases headAt : kernel.waitHead list with
    | none => simp only [tcbUnlink, headAt]
    | some first =>
        have path := queue.path
        rw [headAt] at path
        simp only [tcbUnlink, headAt, findWaiter_absent path member enough]

theorem tcbPopHead_empty (lists : kernel.WaitsAre waits) (empty : waits list = []) :
    tcbPopHead kernel list = (none, kernel) := by
  simp only [tcbPopHead, lists.head_eq_none_iff.mpr empty]

theorem tcbPopHead_spec {first : Addr} {rest : List Addr} (lists : kernel.WaitsAre waits)
    (shape : waits list = first :: rest) :
    (tcbPopHead kernel list).1 = some first ∧
      (tcbPopHead kernel list).2.WaitsAre (Function.update waits list rest) := by
  unfold tcbPopHead
  rw [lists.head_eq_some shape]
  exact ⟨rfl, lists.remove_first shape (fun _ => rfl)⟩

theorem waitPopHighest_empty (lists : kernel.WaitsAre waits) (empty : waits list = []) :
    waitPopHighest kernel list = some (none, kernel) := by
  simp only [waitPopHighest, lists.head_eq_none_iff.mpr empty]

/-- The earliest of the waiters with the numerically smallest priority. -/
def firstHighest (priority : Addr → Nat) (items : List Addr) : Option Addr :=
  items.find? fun item => items.all fun other => decide (priority item ≤ priority other)

theorem firstHighest_congr {priority other : Addr → Nat} {items : List Addr}
    (agree : ∀ item ∈ items, priority item = other item) :
    firstHighest priority items = firstHighest other items := by
  unfold firstHighest
  rw [← List.head?_filter, ← List.head?_filter]
  refine congrArg List.head? (List.filter_congr fun item member => ?_)
  rw [Bool.eq_iff_iff, List.all_eq_true, List.all_eq_true]
  refine forall₂_congr fun rival rivalMember => ?_
  rw [agree item member, agree rival rivalMember]

theorem firstHighest_spec {priority : Addr → Nat} {items : List Addr} {best : Addr}
    (chosen : firstHighest priority items = some best) :
    best ∈ items ∧ ∀ item ∈ items, priority best ≤ priority item := by
  refine ⟨List.mem_of_find?_eq_some chosen, ?_⟩
  have smallest := List.find?_some chosen
  simpa using smallest

theorem firstHighest_of_split {priority : Addr → Nat} {before after : List Addr} {best : Addr}
    (above : ∀ item ∈ before, priority best < priority item)
    (atLeast : ∀ item ∈ after, priority best ≤ priority item) :
    firstHighest priority (before ++ best :: after) = some best := by
  refine List.find?_eq_some_iff_append.mpr ⟨?_, before, after, rfl, ?_⟩
  · simp only [List.all_eq_true, decide_eq_true_eq, List.mem_append, List.mem_cons]
    rintro item (early | rfl | late)
    · exact (above item early).le
    · exact le_rfl
    · exact atLeast item late
  · intro item member
    simp only [Bool.not_eq_true', List.all_eq_false, decide_eq_true_eq]
    exact ⟨best, by simp, (above item member).not_ge⟩

/-- Of the waiters with the numerically smallest priority the earliest is taken. -/
theorem waitPopHighest_spec (lists : kernel.WaitsAre waits)
    (enough : (waits list).length ≤ kernel.walkLimit) (nonempty : waits list ≠ []) :
    ∃ before best after result, waits list = before ++ best :: after ∧
      (∀ item ∈ before, kernel.priority best < kernel.priority item) ∧
      (∀ item ∈ after, kernel.priority best ≤ kernel.priority item) ∧
      waitPopHighest kernel list = some (some best, result) ∧
      result.WaitsAre (Function.update waits list (before ++ after)) := by
  obtain ⟨first, rest, shape⟩ := List.exists_cons_of_ne_nil nonempty
  have headAt := lists.head_eq_some shape
  have path := (lists.queue list).path
  rw [headAt, shape] at path
  rw [shape] at enough
  have onFirst : ∃ fuel, kernel.walkLimit = fuel + 1 ∧ rest.length ≤ fuel := by
    simp only [List.length_cons] at enough
    exact ⟨kernel.walkLimit - 1, by omega, by omega⟩
  obtain ⟨fuel, limit, restEnough⟩ := onFirst
  obtain ⟨best, bestPrev, searched, soFar⟩ :=
    @findHighest_spec _ kernel.priority [first] _ _ _ _ _
      ⟨[], [], rfl, rfl, by simp, by simp⟩ path.2 restEnough
  have found : findHighest kernel.mutexWaitNext kernel.priority kernel.walkLimit first none none
      (some first) = some (best, bestPrev) := by
    rw [limit, findHighest, if_neg (lt_irrefl _)]
    exact searched
  obtain ⟨before, after, split, prevIs, above, atLeast⟩ := soFar.split
  rw [List.singleton_append, ← shape] at split
  rcases List.eq_nil_or_concat' before with rfl | ⟨earlier, prev, rfl⟩
  · cases prevIs
    refine ⟨[], best, after, ?_⟩
    simp only [waitPopHighest, headAt, found, List.getLast?_nil]
    exact ⟨_, split, above, atLeast, rfl, lists.remove_first split fun _ => rfl⟩
  · rw [List.getLast?_concat] at prevIs
    subst prevIs
    refine ⟨earlier ++ [prev], best, after, ?_⟩
    simp only [waitPopHighest, headAt, found]
    exact ⟨_, split, above, atLeast, rfl, lists.remove_later split⟩

theorem minWaitPriorityValue_spec (lists : kernel.WaitsAre waits)
    (enough : (waits list).length ≤ kernel.walkLimit) (nonempty : waits list ≠ []) :
    ∃ value, minWaitPriorityValue kernel list = some value ∧
      (∀ item ∈ waits list, value ≤ kernel.priority item) ∧
      ∃ item ∈ waits list, value = kernel.priority item := by
  obtain ⟨first, rest, shape⟩ := List.exists_cons_of_ne_nil nonempty
  have path := (lists.queue list).path
  rw [shape] at path enough
  simp only [List.length_cons] at enough
  obtain ⟨value, returned, bound, below, attained⟩ :=
    @minWaitLoop_spec _ kernel.priority _ (kernel.priority first) _ kernel.walkLimit path.2
      (by omega)
  refine ⟨value, ?_, ?_, ?_⟩
  · simp only [minWaitPriorityValue, lists.head_eq_some shape]
    exact returned
  · intro item member
    rw [shape] at member
    rcases List.mem_cons.mp member with rfl | later
    · exact bound
    · exact below item later
  · rw [shape]
    rcases attained with isFirst | ⟨item, member, isItem⟩
    · exact ⟨first, List.mem_cons_self, isFirst⟩
    · exact ⟨item, List.mem_cons_of_mem first member, isItem⟩

/-! ### Rings and wait lists together -/

/-- The rings and the wait lists stand for these lists of task control blocks,
which all lie in the pool. -/
structure Kernel.ListsFormed (kernel : Kernel) (rings : Bucket → List Addr)
    (waits : WaitId → List Addr) : Prop where
  ringLists : kernel.RingsAre rings
  waitLists : kernel.WaitsAre waits
  ringed : ∀ bucket, ∀ t ∈ rings bucket, t < kernel.config.poolSize
  waiting : ∀ list, ∀ t ∈ waits list, t < kernel.config.poolSize

theorem Kernel.RingsAre.length_le {rings : Bucket → List Addr} (lists : kernel.RingsAre rings)
    (inPool : ∀ bucket, ∀ t ∈ rings bucket, t < kernel.config.poolSize) (bucket : Bucket) :
    (rings bucket).length ≤ kernel.walkLimit :=
  length_le_of_bounded (lists.family.ring bucket).distinct (inPool bucket)

theorem Kernel.WaitsAre.length_le (lists : kernel.WaitsAre waits)
    (inPool : ∀ list, ∀ t ∈ waits list, t < kernel.config.poolSize) (list : WaitId) :
    (waits list).length ≤ kernel.walkLimit :=
  length_le_of_bounded (lists.queue list).distinct (inPool list)

end MicrokernelRtos
