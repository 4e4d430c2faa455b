/-
Singly linked chains: a head, a successor function, and NULL at the end.

A search walks along the chain and keeps the node before; its fuel is spent only
by a walk that comes back to a node.  The two pointer writes that link a node in
behind the one found and out of the chain are stated on the sequence of nodes.
-/

import MicrokernelRtos.Library.LinkedPath

namespace MicrokernelRtos.Linked

variable {α : Type}

/-- Walks until a node at which `stops` holds, or to the end, and returns that
node with the one before. -/
def chainSearch (next : α → Option α) (stops : α → Bool) :
    Nat → Option α → Option α → Option (Option α × Option α)
  | _, prev, none => some (prev, none)
  | 0, _, some _ => none
  | fuel + 1, prev, some curr =>
      if stops curr then some (prev, some curr)
      else chainSearch next stops fuel (some curr) (next curr)

theorem chainSearch_eq {next : α → Option α} {stops : α → Bool} {start prev : Option α}
    {before after : List α} {fuel : Nat} (path : Path next start (before ++ after) none)
    (passes : ∀ item ∈ before, stops item = false)
    (halts : ∀ item ∈ after.head?, stops item = true)
    (enough : (before ++ after).length ≤ fuel) :
    chainSearch next stops fuel prev start = some (before.getLast?.or prev, after.head?) := by
  induction before generalizing start prev fuel with
  | nil =>
      cases after with
      | nil =>
          cases path
          cases fuel <;> rfl
      | cons node rest =>
          obtain ⟨limit, rfl⟩ : ∃ limit, fuel = limit + 1 := ⟨fuel - 1, by simp at enough; omega⟩
          rw [path.1, chainSearch, if_pos (halts node rfl)]
          rfl
  | cons item rest ih =>
      obtain ⟨limit, rfl⟩ : ∃ limit, fuel = limit + 1 := ⟨fuel - 1, by simp at enough; omega⟩
      have goesOn : stops item = false := passes item List.mem_cons_self
      rw [path.1, chainSearch, goesOn, if_neg Bool.false_ne_true,
        ih path.2 (fun later member => passes later (List.mem_cons_of_mem item member))
          (by simpa using enough)]
      cases rest with
      | nil => rfl
      | cons second others =>
          rw [List.getLast?_cons_cons, List.getLast?_eq_some_getLast (List.cons_ne_nil _ _)]
          rfl

def readChain (next : α → Option α) : Nat → Option α → Option (List α)
  | _, none => some []
  | 0, some _ => none
  | fuel + 1, some node => (readChain next fuel (next node)).map fun rest => node :: rest

theorem readChain_path {next : α → Option α} {fuel : Nat} {start : Option α} {items : List α}
    (isRead : readChain next fuel start = some items) : Path next start items none := by
  induction fuel generalizing start items with
  | zero =>
      cases start with
      | none =>
          cases isRead
          rfl
      | some node => cases isRead
  | succ fuel ih =>
      cases start with
      | none =>
          cases isRead
          rfl
      | some node =>
          obtain ⟨rest, read, rfl⟩ := Option.map_eq_some_iff.mp isRead
          exact ⟨rfl, ih read⟩

theorem readChain_of_path {next : α → Option α} {fuel : Nat} {start : Option α} {items : List α}
    (path : Path next start items none) (enough : items.length ≤ fuel) :
    readChain next fuel start = some items := by
  induction items generalizing start fuel with
  | nil =>
      have ends : start = none := path
      rw [ends]
      cases fuel <;> rfl
  | cons item rest ih =>
      obtain ⟨limit, rfl⟩ : ∃ limit, fuel = limit + 1 := ⟨fuel - 1, by simp at enough; omega⟩
      rw [path.1, readChain, ih path.2 (by simpa using enough)]
      rfl

theorem exists_split_at {key : α → Nat} {items : List α}
    (sorted : items.Pairwise fun left right => key left ≤ key right) (bound : Nat) :
    ∃ front back, items = front ++ back ∧ (∀ item ∈ front, key item ≤ bound) ∧
      ∀ item ∈ back, bound < key item := by
  induction items with
  | nil => exact ⟨[], [], rfl, by simp, by simp⟩
  | cons first rest ih =>
      rw [List.pairwise_cons] at sorted
      by_cases early : key first ≤ bound
      · obtain ⟨front, back, split, below, above⟩ := ih sorted.2
        refine ⟨first :: front, back, by rw [split, List.cons_append], ?_, above⟩
        intro item member
        rcases List.mem_cons.mp member with rfl | later
        · exact early
        · exact below item later
      · refine ⟨[], first :: rest, rfl, by simp, fun item member => ?_⟩
        rcases List.mem_cons.mp member with rfl | later
        · exact Nat.lt_of_not_le early
        · exact Nat.lt_of_lt_of_le (Nat.lt_of_not_le early) (sorted.1 item later)

theorem pairwise_insert {related : α → α → Prop} {front back : List α} {item : α}
    (pairwise : (front ++ back).Pairwise related) (behind : ∀ other ∈ front, related other item)
    (ahead : ∀ other ∈ back, related item other) :
    (front ++ item :: back).Pairwise related := by
  rw [List.pairwise_append] at pairwise ⊢
  refine ⟨pairwise.1, List.pairwise_cons.mpr ⟨ahead, pairwise.2.1⟩, ?_⟩
  intro left inside right later
  rcases List.mem_cons.mp later with rfl | inBack
  · exact behind left inside
  · exact pairwise.2.2 left inside right inBack

variable [DecidableEq α]

/-- The node is linked in between the two that a search has found. -/
def linkIn (next : α → Option α) (head prev curr : Option α) (node : α) :
    (α → Option α) × Option α :=
  match prev with
  | none => (Function.update next node head, some node)
  | some prev => (Function.update (Function.update next node curr) prev (some node), head)

/-- The nodes behind the new one may lead anywhere, also back to it. -/
theorem linkIn_path_to {next : α → Option α} {head curr stop : Option α}
    {before after : List α} {node : α} (reaches : Path next head before curr)
    (goesOn : Path next curr after stop) (distinct : (before ++ after).Nodup)
    (new : node ∉ before ++ after) :
    Path (linkIn next head before.getLast? curr node).1
      (linkIn next head before.getLast? curr node).2 (before ++ node :: after) stop := by
  rw [List.mem_append, not_or] at new
  rcases List.eq_nil_or_concat before with rfl | ⟨front, last, rfl⟩
  · obtain rfl : head = curr := reaches
    refine ⟨rfl, ?_⟩
    dsimp only [List.getLast?_nil, linkIn]
    rw [Function.update_self]
    exact goesOn.update_of_notMem new.2 head
  · rw [List.concat_eq_append] at reaches distinct new ⊢
    rw [List.nodup_append, nodup_concat_iff] at distinct
    rw [List.getLast?_concat]
    dsimp only [linkIn]
    have notLast : node ≠ last := by
      rintro rfl
      exact new.1 (by simp)
    refine (path_append _ _ _ _ _).mpr ⟨some node, ?_, rfl, ?_⟩
    · exact (reaches.update_of_notMem new.1 _).redirect distinct.1.1 (some node)
    · rw [Function.update_of_ne notLast, Function.update_self]
      refine (goesOn.update_of_notMem new.2 _).update_of_notMem ?_ _
      exact fun member => distinct.2.2 last (by simp) last member rfl

theorem linkIn_path {next : α → Option α} {head : Option α} {before after : List α} {node : α}
    (path : Path next head (before ++ after) none) (new : node ∉ before ++ after) :
    Path (linkIn next head before.getLast? after.head? node).1
      (linkIn next head before.getLast? after.head? node).2 (before ++ node :: after) none := by
  have distinct := path.nodup
  obtain ⟨middle, reaches, goesOn⟩ := (path_append _ _ _ _ _).mp path
  have isHead : middle = after.head? := by
    cases after with
    | nil => exact goesOn
    | cons first others => exact goesOn.1
  subst isHead
  exact linkIn_path_to reaches goesOn distinct new

def linkOut (next : α → Option α) (head prev : Option α) (node : α) :
    (α → Option α) × Option α :=
  match prev with
  | none => (Function.update next node none, next node)
  | some prev => (Function.update (Function.update next prev (next node)) node none, head)

theorem linkOut_path {next : α → Option α} {head : Option α} {before after : List α} {node : α}
    (path : Path next head (before ++ node :: after) none) :
    Path (linkOut next head before.getLast? node).1 (linkOut next head before.getLast? node).2
      (before ++ after) none := by
  have distinct := path.nodup
  rcases List.eq_nil_or_concat before with rfl | ⟨front, last, rfl⟩
  · exact path.2.update_of_notMem (List.nodup_cons.mp distinct).1 none
  · rw [List.concat_eq_append] at path distinct ⊢
    rw [List.getLast?_concat]
    exact path.bypass distinct

end MicrokernelRtos.Linked
