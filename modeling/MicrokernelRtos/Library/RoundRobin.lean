/-
Queues that are served in turn.

There is one queue for each index, and the first non-empty queue is served.  Its
first item is selected and goes to the back of its queue.  Items come and leave
in between.  An item that stays sees every other item of its queue selected at
most once before its own turn, because a selected item, and an item that comes
back, stands behind it.
-/

import Mathlib.Data.List.Nodup
import Mathlib.Data.List.TakeWhile
import Mathlib.Logic.Function.Basic

namespace MicrokernelRtos.RoundRobin

variable {ι α : Type} [DecidableEq ι] [DecidableEq α]

inductive Op (ι α : Type) where
  | append (index : ι) (item : α)
  | delete (index : ι) (item : α)
  | move (source target : ι) (item : α)
  | select (index : ι) (item : α)
  | skip

/-- What an operation makes of the queues. -/
inductive Acts [LT ι] : (ι → List α) → Op ι α → (ι → List α) → Prop where
  | append {queues : ι → List α} {index : ι} {item : α} (fresh : ∀ other, item ∉ queues other) :
      Acts queues (.append index item)
        (Function.update queues index (queues index ++ [item]))
  | delete {queues : ι → List α} {index : ι} {item : α} :
      Acts queues (.delete index item)
        (Function.update queues index ((queues index).erase item))
  | move {queues : ι → List α} {source target : ι} {item : α}
      (elsewhere : ∀ other, other ≠ source → item ∉ queues other) (different : source ≠ target) :
      Acts queues (.move source target item)
        (Function.update (Function.update queues source ((queues source).erase item)) target
          (queues target ++ [item]))
  | select {queues : ι → List α} {index : ι} {item : α} {rest : List α}
      (first : queues index = item :: rest) (lowest : ∀ lower, lower < index → queues lower = []) :
      Acts queues (.select index item) (Function.update queues index (rest ++ [item]))
  | skip {queues : ι → List α} : Acts queues .skip queues

def Op.Spares (item : α) : Op ι α → Prop
  | .append _ other => other ≠ item
  | .delete _ other => other ≠ item
  | .move _ _ other => other ≠ item
  | .select _ _ => True
  | .skip => True

def Op.turn : Op ι α → List (ι × α)
  | .append _ _ => []
  | .delete _ _ => []
  | .move _ _ _ => []
  | .select index item => [(index, item)]
  | .skip => []

theorem Acts.mem_of_turn [LT ι] {queues result : ι → List α} {op : Op ι α} {index : ι} {item : α}
    (acts : Acts queues op result) (turn : (index, item) ∈ op.turn) : item ∈ queues index := by
  cases acts with
  | select first lowest =>
      rw [Op.turn, List.mem_singleton] at turn
      cases turn
      rw [first]
      exact List.mem_cons_self
  | append fresh => exact absurd turn List.not_mem_nil
  | delete => exact absurd turn List.not_mem_nil
  | move elsewhere different => exact absurd turn List.not_mem_nil
  | skip => exact absurd turn List.not_mem_nil

/-! ### The items in front of an item -/

def ahead (queue : List α) (item : α) : List α := queue.takeWhile fun other => decide (other ≠ item)

variable {queue rest : List α} {item other : α}

@[simp] theorem ahead_cons_self (item : α) (rest : List α) : ahead (item :: rest) item = [] := by
  simp [ahead]

theorem ahead_cons_of_ne (different : other ≠ item) (rest : List α) :
    ahead (other :: rest) item = other :: ahead rest item := by
  simp [ahead, different]

theorem ahead_append (member : item ∈ queue) (rest : List α) :
    ahead (queue ++ rest) item = ahead queue item := by
  induction queue with
  | nil => cases member
  | cons first others ih =>
      rw [List.cons_append]
      by_cases same : first = item
      · subst same
        rw [ahead_cons_self, ahead_cons_self]
      · have later : item ∈ others := (List.mem_cons.mp member).resolve_left (Ne.symm same)
        rw [ahead_cons_of_ne same, ahead_cons_of_ne same, ih later]

theorem ahead_split {front back : List α} (outside : item ∉ front) :
    ahead (front ++ item :: back) item = front := by
  induction front with
  | nil => exact ahead_cons_self item back
  | cons first others ih =>
      rw [List.mem_cons, not_or] at outside
      rw [List.cons_append, ahead_cons_of_ne (Ne.symm outside.1), ih outside.2]

theorem ahead_erase (different : other ≠ item) (queue : List α) :
    (ahead (queue.erase other) item).Sublist (ahead queue item) := by
  induction queue with
  | nil => exact List.Sublist.refl _
  | cons first others ih =>
      by_cases leaves : first = other
      · subst leaves
        rw [List.erase_cons_head, ahead_cons_of_ne different]
        exact List.sublist_cons_self first _
      · rw [List.erase_cons_tail (by simpa using leaves)]
        by_cases same : first = item
        · subst same
          rw [ahead_cons_self]
          exact List.nil_sublist _
        · rw [ahead_cons_of_ne same, ahead_cons_of_ne same]
          exact ih.cons_cons first

theorem ahead_subset (queue : List α) (item : α) : ∀ other ∈ ahead queue item, other ∈ queue :=
  fun _ member => List.takeWhile_subset _ member

/-! ### An item that stays -/

theorem snoc_split {γ : Type} {turns earlier middle : List γ} {cut turn : γ}
    (split : turns ++ [turn] = earlier ++ cut :: middle) :
    (middle = [] ∧ cut = turn) ∨ ∃ inner, middle = inner ++ [turn] ∧
      turns = earlier ++ cut :: inner := by
  rcases List.eq_nil_or_concat' middle with empty | ⟨inner, last, concat⟩
  · subst empty
    exact Or.inl ⟨rfl, (List.cons.inj (List.append_inj' split rfl).2).1.symm⟩
  · subst concat
    rw [← List.cons_append, ← List.append_assoc] at split
    obtain ⟨front, back⟩ := List.append_inj' split rfl
    cases back
    exact Or.inr ⟨inner, rfl, front⟩

/-- What holds of an item that stays in the queue `index`, which had `budget` items
in front of it when the record of the turns was empty. -/
structure Fair (index : ι) (item : α) (budget : Nat) (queues : ι → List α)
    (turns : List (ι × α)) : Prop where
  listed : item ∈ queues index
  distinct : (queues index).Nodup
  /-- Between two turns of the item no other item of the queue has two. -/
  once : ∀ earlier middle later, turns = earlier ++ (index, item) :: (middle ++ later) →
    (index, item) ∉ middle → ∀ other, middle.count (index, other) ≤ 1
  /-- Whoever had a turn since the last turn of the item stands behind it. -/
  behind : ∀ earlier middle, turns = earlier ++ (index, item) :: middle →
    (index, item) ∉ middle → ∀ other ∈ ahead (queues index) item, (index, other) ∉ middle
  /-- Before the first turn of the item every turn of the queue uses up a place. -/
  waits : ∀ first later, turns = first ++ later → (index, item) ∉ first →
    first.countP (fun turn => decide (turn.1 = index)) ≤ budget
  spends : (index, item) ∉ turns →
    turns.countP (fun turn => decide (turn.1 = index)) +
      (ahead (queues index) item).length ≤ budget

variable {index : ι} {budget : Nat} {queues result : ι → List α} {turns : List (ι × α)}

theorem fair_start {front back : List α} (shape : queues index = front ++ item :: back)
    (distinct : (queues index).Nodup) : Fair index item front.length queues [] := by
  have outside : item ∉ front := by
    rw [shape] at distinct
    exact fun member => (List.nodup_append.mp distinct).2.2 item member item
      List.mem_cons_self rfl
  refine ⟨?_, distinct, ?_, ?_, ?_, ?_⟩
  · rw [shape]
    exact List.mem_append_right _ List.mem_cons_self
  · intro earlier middle later split
    simp at split
  · intro earlier middle split
    simp at split
  · intro first later split _
    rw [(List.append_eq_nil_iff.mp split.symm).1]
    exact Nat.zero_le _
  · intro _
    rw [shape, ahead_split outside, List.countP_nil, Nat.zero_add]

theorem Fair.shrink (fair : Fair index item budget queues turns) (listed : item ∈ result index)
    (distinct : (result index).Nodup)
    (fewer : (ahead (result index) item).Sublist (ahead (queues index) item)) :
    Fair index item budget result turns where
  listed := listed
  distinct := distinct
  once := fair.once
  behind := fun earlier middle split absent other member =>
    fair.behind earlier middle split absent other (fewer.subset member)
  waits := fair.waits
  spends := fun absent =>
    Nat.le_trans (Nat.add_le_add_left fewer.length_le _) (fair.spends absent)

structure Advances (index : ι) (item : α) (before after : List α) (turn : ι × α) : Prop where
  waiting : turn.1 = index → turn.2 ∈ ahead before item
  kept : ∀ other ∈ ahead after item, other ∈ ahead before item ∧ turn ≠ (index, other)
  shorter : (if turn.1 = index then 1 else 0) + (ahead after item).length ≤
    (ahead before item).length

theorem Fair.snoc (fair : Fair index item budget queues turns) {turn : ι × α}
    (listed : item ∈ result index) (distinct : (result index).Nodup)
    (advances : turn ≠ (index, item) →
      Advances index item (queues index) (result index) turn) :
    Fair index item budget result (turns ++ [turn]) := by
  have countLast : (turns ++ [turn]).countP (fun turn => decide (turn.1 = index)) =
      turns.countP (fun turn => decide (turn.1 = index)) + if turn.1 = index then 1 else 0 := by
    rw [List.countP_append, List.countP_singleton]
    simp only [decide_eq_true_eq]
  have spends : (index, item) ∉ turns ++ [turn] →
      (turns ++ [turn]).countP (fun turn => decide (turn.1 = index)) +
        (ahead (result index) item).length ≤ budget := by
    intro absent
    rw [List.mem_append, List.mem_singleton, not_or] at absent
    have before := fair.spends absent.1
    have shorter := (advances (Ne.symm absent.2)).shorter
    omega
  refine ⟨listed, distinct, ?_, ?_, ?_, spends⟩
  · intro earlier middle later split absent other
    rcases List.eq_nil_or_concat' later with empty | ⟨inner, last, concat⟩
    · rw [empty, List.append_nil] at split
      rcases snoc_split split with ⟨none, _⟩ | ⟨inner, concat, old⟩
      · rw [none]
        exact Nat.zero_le _
      · subst concat
        rw [List.mem_append, List.mem_singleton, not_or] at absent
        have before := fair.once earlier inner [] (by rw [List.append_nil]; exact old) absent.1
          other
        rw [List.count_append, List.count_singleton]
        by_cases same : turn = (index, other)
        · have waiting := (advances (Ne.symm absent.2)).waiting (by rw [same])
          rw [same] at waiting ⊢
          have never := fair.behind earlier inner old absent.1 other waiting
          rw [List.count_eq_zero_of_not_mem never, if_pos (beq_self_eq_true _)]
        · rw [if_neg (by simpa using same)]
          exact before
    · subst concat
      rw [← List.append_assoc, ← List.cons_append, ← List.append_assoc] at split
      exact fair.once earlier middle inner (List.append_inj' split rfl).1 absent other
  · intro earlier middle split absent other member
    rcases snoc_split split with ⟨none, _⟩ | ⟨inner, concat, old⟩
    · rw [none]
      exact List.not_mem_nil
    · subst concat
      rw [List.mem_append, List.mem_singleton, not_or] at absent ⊢
      obtain ⟨stood, notTurn⟩ := (advances (Ne.symm absent.2)).kept other member
      exact ⟨fair.behind earlier inner old absent.1 other stood, Ne.symm notTurn⟩
  · intro first later split absent
    rcases List.eq_nil_or_concat' later with empty | ⟨inner, last, concat⟩
    · rw [empty, List.append_nil] at split
      rw [← split] at absent ⊢
      exact Nat.le_trans (Nat.le_add_right _ _) (spends absent)
    · subst concat
      rw [← List.append_assoc] at split
      exact fair.waits first inner (List.append_inj' split rfl).1 absent

theorem advances_rotate (listed : item ∈ rest) (distinct : (other :: rest).Nodup)
    (different : other ≠ item) :
    Advances index item (other :: rest) (rest ++ [other]) (index, other) := by
  have front := ahead_cons_of_ne different rest
  have back := ahead_append listed [other]
  refine ⟨fun _ => ?_, ?_, ?_⟩
  · rw [front]
    exact List.mem_cons_self
  · intro next member
    rw [back] at member
    refine ⟨by rw [front]; exact List.mem_cons_of_mem _ member, ?_⟩
    intro same
    cases same
    exact (List.nodup_cons.mp distinct).1 (ahead_subset rest item _ member)
  · rw [front, back, if_pos rfl, List.length_cons, Nat.add_comm]

theorem advances_elsewhere {position : ι} (different : position ≠ index) :
    Advances index item queue queue (position, other) := by
  refine ⟨fun same => absurd same different, ?_, ?_⟩
  · intro next member
    refine ⟨member, fun same => different (congrArg Prod.fst same)⟩
  · rw [if_neg different, Nat.zero_add]

/-! What an operation can make of the queue of the item. -/

theorem Fair.of_same (fair : Fair index item budget queues turns)
    (same : result index = queues index) : Fair index item budget result turns := by
  refine fair.shrink ?_ ?_ ?_
  · rw [same]
    exact fair.listed
  · rw [same]
    exact fair.distinct
  · rw [same]

theorem Fair.of_append (fair : Fair index item budget queues turns) (fresh : other ∉ queues index)
    (grown : result index = queues index ++ [other]) : Fair index item budget result turns := by
  refine fair.shrink ?_ ?_ ?_
  · rw [grown]
    exact List.mem_append_left _ fair.listed
  · rw [grown]
    exact List.nodup_append_comm.mp (List.nodup_cons.mpr ⟨fresh, fair.distinct⟩)
  · rw [grown, ahead_append fair.listed]

theorem Fair.of_erase (fair : Fair index item budget queues turns) (different : other ≠ item)
    (erased : result index = (queues index).erase other) :
    Fair index item budget result turns := by
  refine fair.shrink ?_ ?_ ?_
  · rw [erased]
    exact (List.mem_erase_of_ne (Ne.symm different)).mpr fair.listed
  · rw [erased]
    exact fair.distinct.erase other
  · rw [erased]
    exact ahead_erase different _

theorem Fair.step [LT ι] {op : Op ι α} (fair : Fair index item budget queues turns)
    (acts : Acts queues op result) (spares : op.Spares item) :
    Fair index item budget result (turns ++ op.turn) := by
  cases acts with
  | @append position other fresh =>
      rw [Op.turn, List.append_nil]
      by_cases here : index = position
      · subst here
        exact fair.of_append (fresh index) (Function.update_self _ _ _)
      · exact fair.of_same (Function.update_of_ne here _ _)
  | @delete position other =>
      rw [Op.turn, List.append_nil]
      by_cases here : index = position
      · subst here
        exact fair.of_erase spares (Function.update_self _ _ _)
      · exact fair.of_same (Function.update_of_ne here _ _)
  | @move source target other elsewhere different =>
      rw [Op.turn, List.append_nil]
      by_cases atTarget : index = target
      · subst atTarget
        exact fair.of_append (elsewhere index (Ne.symm different)) (Function.update_self _ _ _)
      · by_cases atSource : index = source
        · subst atSource
          apply fair.of_erase spares
          rw [Function.update_of_ne atTarget, Function.update_self]
        · apply fair.of_same
          rw [Function.update_of_ne atTarget, Function.update_of_ne atSource]
  | @select position other rest first lowest =>
      rw [Op.turn]
      have listed := fair.listed
      have distinct := fair.distinct
      by_cases here : index = position
      · subst here
        rw [first] at listed distinct
        refine fair.snoc ?_ ?_ ?_
        · rw [Function.update_self]
          exact (List.perm_append_singleton other rest).mem_iff.mpr listed
        · rw [Function.update_self]
          exact (List.perm_append_singleton other rest).nodup_iff.mpr distinct
        · intro notOwn
          have different : other ≠ item := fun same => notOwn (by rw [same])
          have later := (List.mem_cons.mp listed).resolve_left (Ne.symm different)
          rw [Function.update_self, first]
          exact advances_rotate later distinct different
      · refine fair.snoc ?_ ?_ ?_ <;> rw [Function.update_of_ne here]
        · exact listed
        · exact distinct
        · exact fun _ => advances_elsewhere (Ne.symm here)
  | skip =>
      rw [Op.turn, List.append_nil]
      exact fair

/-! ### A queue that is changed in several steps -/

variable {β : Type} {entry : β}

/-- Items have left the queue, and items other than this one have come to its back. -/
def Trails (entry : β) (before after : List β) : Prop :=
  ∃ kept new, after = kept ++ new ∧ kept.Sublist before ∧ entry ∉ new

theorem Trails.refl (entry : β) (queue : List β) : Trails entry queue queue :=
  ⟨queue, [], (List.append_nil queue).symm, List.Sublist.refl queue, List.not_mem_nil⟩

theorem Trails.of_sublist {before after : List β} (fewer : after.Sublist before) :
    Trails entry before after :=
  ⟨after, [], (List.append_nil after).symm, fewer, List.not_mem_nil⟩

theorem Trails.append (queue : List β) {new : List β} (absent : entry ∉ new) :
    Trails entry queue (queue ++ new) :=
  ⟨queue, new, rfl, List.Sublist.refl queue, absent⟩

theorem Trails.trans {first middle last : List β} (earlier : Trails entry first middle)
    (later : Trails entry middle last) : Trails entry first last := by
  obtain ⟨kept, new, rfl, fewer, absent⟩ := earlier
  obtain ⟨still, newer, rfl, fewerStill, absentToo⟩ := later
  obtain ⟨old, recent, rfl, fromKept, fromNew⟩ := List.sublist_append_iff.mp fewerStill
  refine ⟨old, recent ++ newer, List.append_assoc old recent newer, fromKept.trans fewer, ?_⟩
  rw [List.mem_append, not_or]
  exact ⟨fun member => absent (fromNew.subset member), absentToo⟩

theorem ahead_sublist {before after : List α} (fewer : after.Sublist before)
    (listed : item ∈ after) (distinct : before.Nodup) :
    (ahead after item).Sublist (ahead before item) := by
  induction fewer with
  | slnil => exact List.Sublist.refl _
  | @cons shorter longer other fewer ih =>
      obtain ⟨outside, later⟩ := List.nodup_cons.mp distinct
      have different : other ≠ item := by
        rintro rfl
        exact outside (fewer.subset listed)
      rw [ahead_cons_of_ne different]
      exact (ih listed later).cons other
  | @cons_cons shorter longer other fewer ih =>
      by_cases same : other = item
      · subst same
        rw [ahead_cons_self]
        exact List.nil_sublist _
      · have still := (List.mem_cons.mp listed).resolve_left (Ne.symm same)
        rw [ahead_cons_of_ne same, ahead_cons_of_ne same]
        exact (ih still (List.nodup_cons.mp distinct).2).cons_cons other

/-- An item that is there again was there, and has nobody new in front of it. -/
theorem Trails.ahead {before after : List α} (trails : Trails item before after)
    (listed : item ∈ after) (distinct : before.Nodup) :
    (RoundRobin.ahead after item).Sublist (RoundRobin.ahead before item) := by
  obtain ⟨kept, new, rfl, fewer, absent⟩ := trails
  have still : item ∈ kept := (List.mem_append.mp listed).resolve_right absent
  rw [ahead_append still]
  exact ahead_sublist fewer still distinct

end MicrokernelRtos.RoundRobin
