/-
Pointer structures over an arbitrary type of nodes.

A memory is one successor function.  A path relates that function to the list
of nodes a walk visits.  Circular lists carry a head pointer only, queues are
null-terminated and carry a head and a tail.  A family is a collection of such
structures that share one successor function and no node.
-/

import Mathlib.Data.List.Nodup
import Mathlib.Data.List.Perm.Subperm
import Mathlib.Logic.Function.Basic

namespace MicrokernelRtos.Linked

variable {α β : Type}

/-- Following `next` from `start` visits exactly `items`, in this order, and
then stands at `stop`. -/
def Path (next : α → Option α) : Option α → List α → Option α → Prop
  | start, [], stop => start = stop
  | start, item :: rest, stop => start = some item ∧ Path next (next item) rest stop

@[simp] theorem path_nil (next : α → Option α) (start stop : Option α) :
    Path next start [] stop ↔ start = stop := Iff.rfl

@[simp] theorem path_cons (next : α → Option α) (start stop : Option α)
    (item : α) (rest : List α) :
    Path next start (item :: rest) stop ↔
      start = some item ∧ Path next (next item) rest stop := Iff.rfl

theorem path_append (next : α → Option α) (start stop : Option α)
    (front back : List α) :
    Path next start (front ++ back) stop ↔
      ∃ middle, Path next start front middle ∧ Path next middle back stop := by
  induction front generalizing start with
  | nil => simp
  | cons item rest ih => simp [ih, and_assoc]

theorem path_concat (next : α → Option α) (start stop : Option α)
    (front : List α) (last : α) :
    Path next start (front ++ [last]) stop ↔
      Path next start front (some last) ∧ next last = stop := by
  rw [path_append]
  constructor
  · rintro ⟨middle, before, rfl, after⟩
    exact ⟨before, after⟩
  · rintro ⟨before, after⟩
    exact ⟨some last, before, rfl, after⟩

theorem nodup_concat_iff (front : List α) (last : α) :
    (front ++ [last]).Nodup ↔ last ∉ front ∧ front.Nodup := by
  rw [List.nodup_append_comm, List.singleton_append, List.nodup_cons]

theorem nodup_bypass {before after : List α} {previous node : α}
    (distinct : (before ++ [previous] ++ node :: after).Nodup) :
    node ∉ before ++ [previous] ∧ node ∉ after ∧ previous ∉ after ∧
      (before ++ [previous] ++ after).Nodup := by
  obtain ⟨frontDistinct, backDistinct, apart⟩ := List.nodup_append.mp distinct
  obtain ⟨nodeOutside, afterDistinct⟩ := List.nodup_cons.mp backDistinct
  refine ⟨?_, nodeOutside, ?_, ?_⟩
  · intro member
    exact apart node member node List.mem_cons_self rfl
  · intro member
    exact apart previous (by simp) previous (List.mem_cons_of_mem node member) rfl
  · rw [List.nodup_append]
    exact ⟨frontDistinct, afterDistinct, fun left leftMember right rightMember =>
      apart left leftMember right (List.mem_cons_of_mem node rightMember)⟩

theorem length_le_of_bounded {items : List Nat} {bound : Nat} (distinct : items.Nodup)
    (below : ∀ item ∈ items, item < bound) : items.length ≤ bound := by
  have inside : items ⊆ List.range bound := fun item member =>
    List.mem_range.mpr (below item member)
  simpa using (List.Nodup.subperm distinct inside).length_le

theorem Path.congr {next other : α → Option α} {start stop : Option α}
    {items : List α} (path : Path next start items stop)
    (agree : ∀ item ∈ items, other item = next item) :
    Path other start items stop := by
  induction items generalizing start with
  | nil => exact path
  | cons item rest ih =>
      refine ⟨path.1, ?_⟩
      rw [agree item List.mem_cons_self]
      exact ih path.2 (fun later member => agree later (List.mem_cons_of_mem item member))

theorem Path.next_eq {next other : α → Option α} {start begin stop : Option α} {items : List α}
    (left : Path next start items stop) (right : Path other begin items stop) :
    ∀ item ∈ items, next item = other item := by
  induction items generalizing start begin with
  | nil => exact fun item member => absurd member List.not_mem_nil
  | cons first rest ih =>
      intro item member
      rcases List.mem_cons.mp member with isFirst | later
      · rw [isFirst]
        have onward := left.2
        have onwardOther := right.2
        cases rest with
        | nil => exact onward.trans onwardOther.symm
        | cons second others => exact onward.1.trans onwardOther.1.symm
      · exact ih left.2 right.2 item later

theorem Path.unique {next : α → Option α} {start : Option α} {left right : List α}
    (first : Path next start left none) (second : Path next start right none) :
    left = right := by
  induction left generalizing start right with
  | nil =>
      cases right with
      | nil => rfl
      | cons item rest => exact absurd (first.symm.trans second.1) (by simp)
  | cons item rest ih =>
      cases right with
      | nil => exact absurd (second.symm.trans first.1) (by simp)
      | cons other others =>
          have same : item = other := Option.some.inj (first.1.symm.trans second.1)
          subst same
          rw [ih first.2 second.2]

/-- A path that comes to an end visits no node twice. -/
theorem Path.nodup {next : α → Option α} {start : Option α} {items : List α}
    (path : Path next start items none) : items.Nodup := by
  induction items generalizing start with
  | nil => exact List.nodup_nil
  | cons item rest ih =>
      refine List.nodup_cons.mpr ⟨fun again => ?_, ih path.2⟩
      obtain ⟨between, later, split⟩ := List.append_of_mem again
      have whole := path.2
      rw [split, path_append] at whole
      obtain ⟨middle, _, second⟩ := whole
      have same := Path.unique path.2 second.2
      rw [split] at same
      have lengths := congrArg List.length same
      simp only [List.length_append, List.length_cons] at lengths
      omega

theorem Path.resume {next : α → Option α} {start middle : Option α} {front items : List α}
    (reaches : Path next start front middle) (path : Path next start items none) :
    ∃ rest, items = front ++ rest ∧ Path next middle rest none := by
  induction front generalizing start items with
  | nil =>
      cases reaches
      exact ⟨items, rfl, path⟩
  | cons item others ih =>
      cases items with
      | nil => exact absurd (path.symm.trans reaches.1) (by simp)
      | cons first later =>
          have same : first = item := Option.some.inj (path.1.symm.trans reaches.1)
          subst same
          obtain ⟨rest, split, ends⟩ := ih reaches.2 path.2
          exact ⟨rest, by rw [split, List.cons_append], ends⟩

/-- A walk that comes back to a node never comes to an end. -/
theorem Path.endless {next : α → Option α} {start : Option α} {node : α}
    {front loop items : List α} (reaches : Path next start front (some node))
    (returns : Path next (some node) (node :: loop) (some node)) :
    ¬ Path next start items none := by
  intro path
  obtain ⟨rest, _, ends⟩ := reaches.resume path
  obtain ⟨again, split, endsToo⟩ := returns.resume ends
  have lengths := congrArg List.length (split.symm.trans (ends.unique endsToo))
  simp only [List.length_append, List.length_cons] at lengths
  omega

theorem Path.update_of_notMem [DecidableEq α] {next : α → Option α}
    {start stop : Option α} {items : List α} (path : Path next start items stop)
    {node : α} (outside : node ∉ items) (value : Option α) :
    Path (Function.update next node value) start items stop := by
  apply path.congr
  intro item member
  have different : item ≠ node := fun same => outside (same ▸ member)
  exact Function.update_of_ne different value next

theorem Path.redirect [DecidableEq α] {next : α → Option α}
    {start stop : Option α} {front : List α} {last : α}
    (path : Path next start (front ++ [last]) stop) (outside : last ∉ front)
    (value : Option α) :
    Path (Function.update next last value) start (front ++ [last]) value := by
  rw [path_concat] at path ⊢
  exact ⟨path.1.update_of_notMem outside value, Function.update_self last value next⟩

theorem Path.bypass [DecidableEq α] {next : α → Option α} {start stop : Option α}
    {before after : List α} {previous node : α}
    (path : Path next start (before ++ [previous] ++ node :: after) stop)
    (distinct : (before ++ [previous] ++ node :: after).Nodup) :
    Path (Function.update (Function.update next previous (next node)) node none)
      start (before ++ [previous] ++ after) stop := by
  obtain ⟨nodeFront, nodeAfter, previousAfter, _⟩ := nodup_bypass distinct
  have previousOutside : previous ∉ before :=
    ((nodup_concat_iff before previous).mp (List.nodup_append.mp distinct).1).1
  obtain ⟨middle, frontPath, backPath⟩ :=
    (path_append next start stop (before ++ [previous]) (node :: after)).mp path
  rw [path_append]
  exact ⟨next node,
    (frontPath.redirect previousOutside (next node)).update_of_notMem nodeFront none,
    (backPath.2.update_of_notMem previousAfter _).update_of_notMem nodeAfter none⟩

/-- The node `target` is met by following `next` from `start`. -/
inductive Reaches (next : α → Option α) : Option α → α → Prop
  | here (target : α) : Reaches next (some target) target
  | step {node target : α} (later : Reaches next (next node) target) :
      Reaches next (some node) target

theorem Path.reaches {next : α → Option α} {start stop : Option α} {items : List α}
    (path : Path next start items stop) {target : α} (member : target ∈ items) :
    Reaches next start target := by
  induction items generalizing start with
  | nil => cases member
  | cons item rest ih =>
      rw [path.1]
      rcases List.mem_cons.mp member with rfl | later
      · exact .here _
      · exact .step (ih path.2 later)

/-- A walk cannot leave a set of nodes that `next` maps into itself. -/
theorem Reaches.mem_of_closed {next : α → Option α} {start : Option α} {target : α}
    (reached : Reaches next start target) {items : List α}
    (entered : ∀ item, start = some item → item ∈ items)
    (closed : ∀ item ∈ items, ∀ after, next item = some after → after ∈ items) :
    target ∈ items := by
  induction reached with
  | here target => exact entered target rfl
  | @step node target later ih =>
      exact ih (fun after follows => closed node (entered node rfl) after follows)

theorem Path.exists_start {next : α → Option α} {start stop : Option α} {items : List α}
    (path : Path next start items stop) (nonempty : items ≠ []) :
    ∃ first ∈ items, start = some first := by
  cases items with
  | nil => exact absurd rfl nonempty
  | cons first rest => exact ⟨first, List.mem_cons_self, path.1⟩

theorem Path.next_mem {next : α → Option α} {start stop : Option α} {items : List α}
    (path : Path next start items stop) {item after : α} (member : item ∈ items)
    (follows : next item = some after) : after ∈ items ∨ stop = some after := by
  induction items generalizing start with
  | nil => cases member
  | cons first rest ih =>
      rcases List.mem_cons.mp member with rfl | later
      · cases rest with
        | nil => exact Or.inr (path.2.symm.trans follows)
        | cons second others =>
            have same : after = second := Option.some.inj (follows.symm.trans path.2.1)
            exact Or.inl (by simp [same])
      · exact (ih path.2 later).imp_left (List.mem_cons_of_mem first)

theorem Path.reaches_iff {next : α → Option α} {start : Option α} {items : List α}
    (path : Path next start items none) (target : α) :
    Reaches next start target ↔ target ∈ items := by
  constructor
  · intro reached
    refine reached.mem_of_closed ?_ ?_
    · rintro item rfl
      cases items with
      | nil => cases path
      | cons first rest =>
          cases path.1
          exact List.mem_cons_self
    · intro item member after follows
      rcases path.next_mem member follows with inside | ended
      · exact inside
      · cases ended
  · exact path.reaches

/-! ### Circular lists -/

/-- A circular list read from its head pointer. -/
structure IsRing (next : α → Option α) (head : Option α) (items : List α) : Prop where
  closed : Path next head items head
  anchored : items = [] → head = none
  distinct : items.Nodup

theorem isRing_empty (next : α → Option α) : IsRing next none [] :=
  ⟨rfl, fun _ => rfl, List.nodup_nil⟩

theorem IsRing.head_eq {next : α → Option α} {head : Option α} {items : List α}
    (ring : IsRing next head items) : head = items.head? := by
  cases items with
  | nil => exact ring.anchored rfl
  | cons item rest => exact ring.closed.1

theorem IsRing.congr {next other : α → Option α} {head : Option α} {items : List α}
    (ring : IsRing next head items) (agree : ∀ item ∈ items, other item = next item) :
    IsRing other head items :=
  ⟨ring.closed.congr agree, ring.anchored, ring.distinct⟩

theorem IsRing.reaches_iff {next : α → Option α} {head : Option α} {items : List α}
    (ring : IsRing next head items) (target : α) :
    Reaches next head target ↔ target ∈ items := by
  constructor
  · intro reached
    have entered : ∀ item, head = some item → item ∈ items := by
      intro item starts
      rw [ring.head_eq] at starts
      exact List.mem_of_head? starts
    refine reached.mem_of_closed entered ?_
    intro item member after follows
    exact (ring.closed.next_mem member follows).elim id (entered after)
  · exact ring.closed.reaches

theorem IsRing.next_eq_self_iff {next : α → Option α} {first : α} {rest : List α}
    (ring : IsRing next (some first) (first :: rest)) :
    next first = some first ↔ rest = [] := by
  have onward : Path next (next first) rest (some first) := ring.closed.2
  cases rest with
  | nil => exact ⟨fun _ => rfl, fun _ => onward⟩
  | cons second others =>
      refine ⟨fun same => ?_, fun empty => by cases empty⟩
      have isFirst : second = first := Option.some.inj (onward.1.symm.trans same)
      exact absurd List.mem_cons_self (isFirst ▸ (List.nodup_cons.mp ring.distinct).1)

theorem IsRing.rotate {next : α → Option α} {first : α} {rest : List α}
    (ring : IsRing next (some first) (first :: rest)) :
    IsRing next (next first) (rest ++ [first]) := by
  refine ⟨?_, fun empty => by simp at empty, ?_⟩
  · rw [path_concat]
    exact ⟨ring.closed.2, rfl⟩
  · exact (List.nodup_append_comm.mp ring.distinct : (rest ++ [first]).Nodup)

def readRing [DecidableEq α] (next : α → Option α) (head : α) : Nat → α → List α
  | 0, _ => []
  | fuel + 1, node =>
      match next node with
      | none => [node]
      | some after => if after = head then [node] else node :: readRing next head fuel after

theorem readRing_eq [DecidableEq α] {next : α → Option α} {head node : α} {items : List α}
    {fuel : Nat} (path : Path next (some node) (node :: items) (some head))
    (outside : head ∉ items) (enough : items.length < fuel) :
    readRing next head fuel node = node :: items := by
  induction items generalizing node fuel with
  | nil =>
      obtain ⟨limit, rfl⟩ : ∃ limit, fuel = limit + 1 := ⟨fuel - 1, by simp at enough; omega⟩
      have closes : next node = some head := path.2
      simp [readRing, closes]
  | cons second rest ih =>
      obtain ⟨limit, rfl⟩ : ∃ limit, fuel = limit + 1 := ⟨fuel - 1, by simp at enough; omega⟩
      have follows : next node = some second := path.2.1
      rw [List.mem_cons, not_or] at outside
      rw [List.length_cons] at enough
      simp only [readRing, follows]
      rw [if_neg (Ne.symm outside.1), ih (follows ▸ path.2) outside.2 (by omega)]

theorem IsRing.readRing_eq [DecidableEq α] {next : α → Option α} {head : α} {items : List α}
    {fuel : Nat} (ring : IsRing next (some head) items) (enough : items.length ≤ fuel) :
    readRing next head fuel head = items := by
  cases items with
  | nil => exact absurd (ring.anchored rfl) (by simp)
  | cons first rest =>
      have same : head = first := Option.some.inj ring.closed.1
      subst same
      exact Linked.readRing_eq ring.closed (List.nodup_cons.mp ring.distinct).1
        (by rw [List.length_cons] at enough; omega)

theorem IsRing.unique [DecidableEq α] {next : α → Option α} {head : Option α}
    {left right : List α} (first : IsRing next head left) (second : IsRing next head right) :
    left = right := by
  cases head with
  | none =>
      have leftEmpty := first.head_eq
      have rightEmpty := second.head_eq
      rw [List.head?_eq_none_iff.mp leftEmpty.symm, List.head?_eq_none_iff.mp rightEmpty.symm]
  | some head =>
      rw [← first.readRing_eq (Nat.le_max_left left.length right.length),
        second.readRing_eq (Nat.le_max_right left.length right.length)]

section Updates

variable [DecidableEq α]

/-- A fresh node is linked behind the last node and in front of the head. -/
theorem IsRing.insert {next : α → Option α} {head last fresh : α} {front : List α}
    (ring : IsRing next (some head) (front ++ [last])) (new : fresh ∉ front ++ [last]) :
    IsRing (Function.update (Function.update next last (some fresh)) fresh (some head))
      (some head) (front ++ [last] ++ [fresh]) := by
  have lastOutside : last ∉ front := ((nodup_concat_iff front last).mp ring.distinct).1
  refine ⟨?_, fun empty => by simp at empty, ?_⟩
  · rw [path_concat]
    exact ⟨(ring.closed.redirect lastOutside (some fresh)).update_of_notMem new _,
      Function.update_self fresh _ _⟩
  · rw [nodup_concat_iff]
    exact ⟨new, ring.distinct⟩

theorem isRing_singleton (next : α → Option α) (fresh : α) :
    IsRing (Function.update next fresh (some fresh)) (some fresh) [fresh] :=
  ⟨⟨rfl, Function.update_self fresh _ next⟩, fun empty => by simp at empty,
    List.nodup_singleton fresh⟩

theorem IsRing.remove_first {next : α → Option α} {first last : α} {middle : List α}
    (ring : IsRing next (some first) (first :: (middle ++ [last]))) :
    IsRing (Function.update (Function.update next last (next first)) first none)
      (next first) (middle ++ [last]) := by
  obtain ⟨firstOutside, distinct⟩ := List.nodup_cons.mp ring.distinct
  have lastOutside : last ∉ middle := ((nodup_concat_iff middle last).mp distinct).1
  refine ⟨?_, fun empty => by simp at empty, distinct⟩
  exact (ring.closed.2.redirect lastOutside (next first)).update_of_notMem firstOutside none

theorem IsRing.remove_later {next : α → Option α} {head : Option α}
    {before after : List α} {previous node : α}
    (ring : IsRing next head (before ++ [previous] ++ node :: after)) :
    IsRing (Function.update (Function.update next previous (next node)) node none)
      head (before ++ [previous] ++ after) := by
  refine ⟨ring.closed.bypass ring.distinct, fun empty => by simp at empty, ?_⟩
  exact (nodup_bypass ring.distinct).2.2.2

end Updates

/-! ### Null-terminated queues -/

/-- A queue read from its head pointer, whose tail pointer names the last node. -/
structure IsQueue (next : α → Option α) (head tail : Option α) (items : List α) :
    Prop where
  path : Path next head items none
  last : tail = items.getLast?
  distinct : items.Nodup

theorem isQueue_empty (next : α → Option α) : IsQueue next none none [] :=
  ⟨rfl, rfl, List.nodup_nil⟩

theorem IsQueue.head_eq {next : α → Option α} {head tail : Option α} {items : List α}
    (queue : IsQueue next head tail items) : head = items.head? := by
  cases items with
  | nil => exact queue.path
  | cons item rest => exact queue.path.1

theorem IsQueue.congr {next other : α → Option α} {head tail : Option α} {items : List α}
    (queue : IsQueue next head tail items)
    (agree : ∀ item ∈ items, other item = next item) : IsQueue other head tail items :=
  ⟨queue.path.congr agree, queue.last, queue.distinct⟩

theorem IsQueue.reaches_iff {next : α → Option α} {head tail : Option α} {items : List α}
    (queue : IsQueue next head tail items) (target : α) :
    Reaches next head target ↔ target ∈ items :=
  queue.path.reaches_iff target

section Updates

variable [DecidableEq α]

theorem isQueue_singleton (next : α → Option α) (fresh : α) :
    IsQueue (Function.update next fresh none) (some fresh) (some fresh) [fresh] :=
  ⟨by simp, rfl, List.nodup_singleton fresh⟩

theorem IsQueue.append {next : α → Option α} {head tail : Option α} {front : List α}
    {last fresh : α} (queue : IsQueue next head tail (front ++ [last]))
    (new : fresh ∉ front ++ [last]) :
    IsQueue (Function.update (Function.update next fresh none) last (some fresh))
      head (some fresh) (front ++ [last] ++ [fresh]) := by
  have lastOutside : last ∉ front := ((nodup_concat_iff front last).mp queue.distinct).1
  have different : fresh ≠ last := fun same => new (by simp [same])
  refine ⟨?_, by simp, ?_⟩
  · rw [path_concat]
    refine ⟨(queue.path.update_of_notMem new none).redirect lastOutside (some fresh), ?_⟩
    rw [Function.update_of_ne different, Function.update_self]
  · rw [nodup_concat_iff]
    exact ⟨new, queue.distinct⟩

theorem IsQueue.remove_first {next : α → Option α} {head tail : Option α}
    {first : α} {rest : List α} (queue : IsQueue next head tail (first :: rest)) :
    IsQueue (Function.update next first none) (next first)
      (if rest = [] then none else tail) rest := by
  obtain ⟨firstOutside, distinct⟩ := List.nodup_cons.mp queue.distinct
  refine ⟨queue.path.2.update_of_notMem firstOutside none, ?_, distinct⟩
  cases rest with
  | nil => rfl
  | cons second others =>
      rw [if_neg (List.cons_ne_nil second others), queue.last]
      exact List.getLast?_cons_cons

/-- A node behind the first leaves: its predecessor is linked to its successor,
and becomes the tail when the node was the last. -/
theorem IsQueue.remove_later {next : α → Option α} {head tail : Option α}
    {before after : List α} {previous node : α}
    (queue : IsQueue next head tail (before ++ [previous] ++ node :: after)) :
    IsQueue (Function.update (Function.update next previous (next node)) node none)
      head (if tail = some node then some previous else tail)
      (before ++ [previous] ++ after) := by
  refine ⟨queue.path.bypass queue.distinct, ?_, (nodup_bypass queue.distinct).2.2.2⟩
  have tailIs := queue.last
  rcases List.eq_nil_or_concat' after with rfl | ⟨inner, last, rfl⟩
  · have atNode : tail = some node := by rw [tailIs]; simp
    rw [if_pos atNode]
    simp
  · have atLast : tail = some last := by
      rw [tailIs, ← List.cons_append, ← List.append_assoc, List.getLast?_concat]
    have different : last ≠ node := by
      intro same
      exact (nodup_bypass queue.distinct).2.1 (by simp [same])
    rw [if_neg (by rw [atLast]; simpa using different), atLast, ← List.append_assoc,
      List.getLast?_concat]

end Updates

/-! ### Families over one successor function -/

/-- Circular lists that share one successor function and no node. -/
structure RingFamily (next : α → Option α) (head : β → Option α) (items : β → List α) :
    Prop where
  ring : ∀ index, IsRing next (head index) (items index)
  apart : ∀ left right item, item ∈ items left → item ∈ items right → left = right

structure QueueFamily (next : α → Option α) (head tail : β → Option α)
    (items : β → List α) : Prop where
  queue : ∀ index, IsQueue next (head index) (tail index) (items index)
  apart : ∀ left right item, item ∈ items left → item ∈ items right → left = right

theorem RingFamily.congr {next other : α → Option α} {head : β → Option α}
    {items : β → List α} (family : RingFamily next head items)
    (agree : ∀ index, ∀ item ∈ items index, other item = next item) :
    RingFamily other head items :=
  ⟨fun index => (family.ring index).congr (agree index), family.apart⟩

theorem QueueFamily.congr {next other : α → Option α} {head tail : β → Option α}
    {items : β → List α} (family : QueueFamily next head tail items)
    (agree : ∀ index, ∀ item ∈ items index, other item = next item) :
    QueueFamily other head tail items :=
  ⟨fun index => (family.queue index).congr (agree index), family.apart⟩

variable [DecidableEq β]

private theorem apart_update {items : β → List α} {index : β} {changed : List α}
    (apart : ∀ left right item, item ∈ items left → item ∈ items right → left = right)
    (foreign : ∀ other, other ≠ index → ∀ item ∈ changed, item ∉ items other)
    (left right : β) (item : α)
    (inLeft : item ∈ Function.update items index changed left)
    (inRight : item ∈ Function.update items index changed right) : left = right := by
  by_cases leftIs : left = index
  · by_cases rightIs : right = index
    · exact leftIs.trans rightIs.symm
    · rw [leftIs, Function.update_self] at inLeft
      rw [Function.update_of_ne rightIs] at inRight
      exact absurd inRight (foreign right rightIs item inLeft)
  · rw [Function.update_of_ne leftIs] at inLeft
    by_cases rightIs : right = index
    · rw [rightIs, Function.update_self] at inRight
      exact absurd inLeft (foreign left leftIs item inRight)
    · rw [Function.update_of_ne rightIs] at inRight
      exact apart left right item inLeft inRight

/-- One ring of a family is replaced.  The new successor function may differ
from the old one only on nodes of the old or the new ring. -/
theorem RingFamily.replace {next other : α → Option α} {head : β → Option α}
    {items : β → List α} (family : RingFamily next head items) (index : β)
    {newHead : Option α} {changed : List α} (ring : IsRing other newHead changed)
    (frame : ∀ item, item ∉ items index → item ∉ changed → other item = next item)
    (foreign : ∀ different, different ≠ index → ∀ item ∈ changed, item ∉ items different) :
    RingFamily other (Function.update head index newHead)
      (Function.update items index changed) := by
  refine ⟨?_, apart_update family.apart foreign⟩
  intro position
  by_cases same : position = index
  · subst position
    rw [Function.update_self, Function.update_self]
    exact ring
  · rw [Function.update_of_ne same, Function.update_of_ne same]
    apply (family.ring position).congr
    intro item member
    apply frame item
    · exact fun inside => same (family.apart position index item member inside)
    · exact fun inside => foreign position same item inside member

theorem QueueFamily.replace {next other : α → Option α} {head tail : β → Option α}
    {items : β → List α} (family : QueueFamily next head tail items) (index : β)
    {newHead newTail : Option α} {changed : List α}
    (queue : IsQueue other newHead newTail changed)
    (frame : ∀ item, item ∉ items index → item ∉ changed → other item = next item)
    (foreign : ∀ different, different ≠ index → ∀ item ∈ changed, item ∉ items different) :
    QueueFamily other (Function.update head index newHead)
      (Function.update tail index newTail) (Function.update items index changed) := by
  refine ⟨?_, apart_update family.apart foreign⟩
  intro position
  by_cases same : position = index
  · subst position
    rw [Function.update_self, Function.update_self, Function.update_self]
    exact queue
  · rw [Function.update_of_ne same, Function.update_of_ne same, Function.update_of_ne same]
    apply (family.queue position).congr
    intro item member
    apply frame item
    · exact fun inside => same (family.apart position index item member inside)
    · exact fun inside => foreign position same item inside member

end MicrokernelRtos.Linked
