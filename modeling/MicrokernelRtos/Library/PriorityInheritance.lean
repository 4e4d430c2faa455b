/-
Priority inheritance of one level.

Tasks hold locks and wait for locks.  A task that starts to wait lends its level
to the holder, and a holder that gives up any lock goes back to its base level.
Waiters may leave, and tasks come and go.  A smaller level is a more urgent one.

Three laws are stated, each with the condition under which a step keeps it: a
holder is as urgent as the base of every waiter, a holder is as urgent as every
waiter, and a task that is more urgent than its base has a waiter at that level.
-/

import Mathlib.Logic.Function.Basic
import Mathlib.Logic.Relation
import Mathlib.Order.Lattice

namespace MicrokernelRtos.Inheritance

universe u v w

structure State (Task : Type u) (Lock : Type v) (Level : Type w) where
  live : Task → Prop
  holder : Lock → Option Task
  waiting : Lock → Task → Prop
  level : Task → Level
  base : Task → Level

inductive Event (Task : Type u) (Lock : Type v) where
  | rest
  | take (lock : Lock) (t : Task)
  | join (lock : Lock) (t : Task)
  | drop (lock : Lock) (t : Task)
  | leave (gone : Task → Prop)
  | die (t : Task)
  | born (t : Task)

variable {Task : Type u} {Lock : Type v} {Level : Type w}
variable [DecidableEq Task] [DecidableEq Lock] [LinearOrder Level]

/-- The levels after the waiters have lent theirs: the holder gets the smallest
one, if it is smaller than its own. -/
def Lent (level : Task → Level) (waiter : Task → Prop) (holder : Task) (after : Task → Level) :
    Prop :=
  (after = level ∧ ∀ other, waiter other → level holder ≤ level other) ∨
    ∃ lender, waiter lender ∧ level lender < level holder ∧
      (∀ other, waiter other → level lender ≤ level other) ∧
      after = Function.update level holder (level lender)

inductive Step (before after : State Task Lock Level) : Event Task Lock → Prop where
  | rest (live : after.live = before.live) (holder : after.holder = before.holder)
      (waiting : after.waiting = before.waiting) (level : after.level = before.level)
      (base : after.base = before.base) : Step before after .rest
  | take {lock : Lock} {t : Task} (nobody : ∀ waiter, ¬ before.waiting lock waiter)
      (isLive : before.live t) (live : after.live = before.live)
      (holder : after.holder = Function.update before.holder lock (some t))
      (waiting : after.waiting = before.waiting) (level : after.level = before.level)
      (base : after.base = before.base) : Step before after (.take lock t)
  | join {lock : Lock} {t owner : Task} (held : before.holder lock = some owner)
      (foreign : owner ≠ t) (isLive : before.live t) (idle : ∀ other, ¬ before.waiting other t)
      (live : after.live = before.live) (holder : after.holder = before.holder)
      (waiting : ∀ other waiter, after.waiting other waiter ↔
        before.waiting other waiter ∨ (other = lock ∧ waiter = t))
      (lent : Lent before.level (after.waiting lock) owner after.level)
      (base : after.base = before.base) : Step before after (.join lock t)
  | release {lock : Lock} {t : Task} (held : before.holder lock = some t)
      (idle : ∀ other, ¬ before.waiting other t) (nobody : ∀ waiter, ¬ before.waiting lock waiter)
      (live : after.live = before.live)
      (holder : after.holder = Function.update before.holder lock none)
      (waiting : after.waiting = before.waiting)
      (level : after.level = Function.update before.level t (before.base t))
      (base : after.base = before.base) : Step before after (.drop lock t)
  | pass {lock : Lock} {t heir : Task} (held : before.holder lock = some t)
      (idle : ∀ other, ¬ before.waiting other t) (chosen : before.waiting lock heir)
      (first : ∀ waiter, before.waiting lock waiter → before.level heir ≤ before.level waiter)
      (live : after.live = before.live)
      (holder : after.holder = Function.update before.holder lock (some heir))
      (waiting : ∀ other waiter, after.waiting other waiter ↔
        before.waiting other waiter ∧ waiter ≠ heir)
      (level : after.level = Function.update before.level t (before.base t))
      (base : after.base = before.base) : Step before after (.drop lock t)
  | leave {gone : Task → Prop} (live : after.live = before.live)
      (holder : after.holder = before.holder)
      (waiting : ∀ lock waiter, after.waiting lock waiter ↔
        before.waiting lock waiter ∧ ¬ gone waiter)
      (level : after.level = before.level) (base : after.base = before.base) :
      Step before after (.leave gone)
  | die {t : Task} (live : ∀ other, after.live other ↔ before.live other ∧ other ≠ t)
      (holder : after.holder = before.holder)
      (waiting : ∀ lock waiter, after.waiting lock waiter ↔
        before.waiting lock waiter ∧ waiter ≠ t)
      (level : after.level = before.level) (base : after.base = before.base) :
      Step before after (.die t)
  | born {t : Task} {value : Level} (fresh : ¬ before.live t)
      (live : ∀ other, after.live other ↔ before.live other ∨ other = t)
      (holder : after.holder = before.holder) (waiting : after.waiting = before.waiting)
      (level : after.level = Function.update before.level t value)
      (base : after.base = Function.update before.base t value) : Step before after (.born t)

structure WellFormed (s : State Task Lock Level) : Prop where
  live : ∀ lock waiter, s.waiting lock waiter → s.live waiter
  one : ∀ lock other waiter, s.waiting lock waiter → s.waiting other waiter → lock = other

def Below (s : State Task Lock Level) : Prop := ∀ t, s.live t → s.level t ≤ s.base t

def HoldersLive (s : State Task Lock Level) : Prop := ∀ lock t, s.holder lock = some t → s.live t

variable {before after : State Task Lock Level} {event : Event Task Lock}

/-! ### Lending -/

theorem Lent.le {level result : Task → Level} {waiter : Task → Prop} {holder : Task}
    (lent : Lent level waiter holder result) (t : Task) : result t ≤ level t := by
  rcases lent with ⟨rfl, _⟩ | ⟨lender, _, below, _, rfl⟩
  · exact le_rfl
  · by_cases same : t = holder
    · subst t
      rw [Function.update_self]
      exact below.le
    · rw [Function.update_of_ne same]

theorem Lent.holder_le {level result : Task → Level} {waiter : Task → Prop} {holder : Task}
    (lent : Lent level waiter holder result) {t : Task} (isWaiter : waiter t) :
    result holder ≤ level t := by
  rcases lent with ⟨rfl, atLeast⟩ | ⟨lender, _, _, atLeast, rfl⟩
  · exact atLeast t isWaiter
  · rw [Function.update_self]
    exact atLeast t isWaiter

theorem Lent.other {level result : Task → Level} {waiter : Task → Prop} {holder t : Task}
    (lent : Lent level waiter holder result) (different : t ≠ holder) : result t = level t := by
  rcases lent with ⟨rfl, _⟩ | ⟨lender, _, _, _, rfl⟩
  · rfl
  · exact Function.update_of_ne different _ _

/-! ### Live tasks -/

theorem Step.below (holds : Below before) (step : Step before after event) : Below after := by
  intro t isLive
  cases step with
  | rest live holder waiting level base =>
      rw [level, base]
      exact holds t (live ▸ isLive)
  | take nobody _ live holder waiting level base =>
      rw [level, base]
      exact holds t (live ▸ isLive)
  | join held foreign _ idle live holder waiting lent base =>
      rw [base]
      exact (lent.le t).trans (holds t (live ▸ isLive))
  | @release lock dropper held idle nobody live holder waiting level base =>
      rw [level, base]
      by_cases same : t = dropper
      · rw [same, Function.update_self]
      · rw [Function.update_of_ne same]
        exact holds t (live ▸ isLive)
  | @pass lock dropper heir held idle chosen first live holder waiting level base =>
      rw [level, base]
      by_cases same : t = dropper
      · rw [same, Function.update_self]
      · rw [Function.update_of_ne same]
        exact holds t (live ▸ isLive)
  | leave live holder waiting level base =>
      rw [level, base]
      exact holds t (live ▸ isLive)
  | die live holder waiting level base =>
      rw [level, base]
      exact holds t ((live t).mp isLive).1
  | @born newcomer value fresh live holder waiting level base =>
      rw [level, base]
      by_cases same : t = newcomer
      · rw [same, Function.update_self, Function.update_self]
      · rw [Function.update_of_ne same, Function.update_of_ne same]
        exact holds t (((live t).mp isLive).resolve_right same)

theorem Step.holdersLive (holds : HoldersLive before) (wellFormed : WellFormed before)
    (step : Step before after event) (deathless : ∀ t, event ≠ .die t) : HoldersLive after := by
  intro lock t isHolder
  cases step with
  | rest live holder waiting level base =>
      rw [live]
      rw [holder] at isHolder
      exact holds lock t isHolder
  | @take taken taker nobody takerLive live holder waiting level base =>
      rw [live]
      rw [holder] at isHolder
      by_cases same : lock = taken
      · rw [same, Function.update_self] at isHolder
        cases isHolder
        exact takerLive
      · rw [Function.update_of_ne same] at isHolder
        exact holds lock t isHolder
  | join held foreign _ idle live holder waiting lent base =>
      rw [live]
      rw [holder] at isHolder
      exact holds lock t isHolder
  | @release dropped dropper held idle nobody live holder waiting level base =>
      rw [live]
      rw [holder] at isHolder
      by_cases same : lock = dropped
      · rw [same, Function.update_self] at isHolder
        cases isHolder
      · rw [Function.update_of_ne same] at isHolder
        exact holds lock t isHolder
  | @pass dropped dropper heir held idle chosen first live holder waiting level base =>
      rw [live]
      rw [holder] at isHolder
      by_cases same : lock = dropped
      · rw [same, Function.update_self] at isHolder
        cases isHolder
        exact wellFormed.live dropped t chosen
      · rw [Function.update_of_ne same] at isHolder
        exact holds lock t isHolder
  | leave live holder waiting level base =>
      rw [live]
      rw [holder] at isHolder
      exact holds lock t isHolder
  | @die t live holder waiting level base => exact absurd rfl (deathless t)
  | born fresh live holder waiting level base =>
      rw [holder] at isHolder
      exact (live t).mpr (Or.inl (holds lock t isHolder))

/-! ### Steps that nobody lends or gives back in -/

def Event.Plain : Event Task Lock → Prop
  | .join _ _ => False
  | .drop _ _ => False
  | _ => True

structure SamePair (before after : State Task Lock Level) (lock : Lock) (owner waiter : Task) :
    Prop where
  holds : before.holder lock = some owner
  waits : before.waiting lock waiter
  ownerLevel : after.level owner = before.level owner
  waiterLevel : after.level waiter = before.level waiter
  waiterBase : after.base waiter = before.base waiter

theorem Step.samePair (wellFormed : WellFormed before) (holders : HoldersLive before)
    (step : Step before after event) (plain : event.Plain) {lock : Lock} {owner waiter : Task}
    (isHolder : after.holder lock = some owner) (isWaiter : after.waiting lock waiter) :
    SamePair before after lock owner waiter := by
  cases step with
  | rest live holder waiting level base =>
      rw [holder] at isHolder
      rw [waiting] at isWaiter
      exact ⟨isHolder, isWaiter, by rw [level], by rw [level], by rw [base]⟩
  | @take taken taker nobody takerLive live holder waiting level base =>
      rw [holder] at isHolder
      rw [waiting] at isWaiter
      have different : lock ≠ taken := by
        rintro rfl
        exact nobody waiter isWaiter
      rw [Function.update_of_ne different] at isHolder
      exact ⟨isHolder, isWaiter, by rw [level], by rw [level], by rw [base]⟩
  | join held foreign _ idle live holder waiting lent base => exact absurd plain id
  | release held idle nobody live holder waiting level base => exact absurd plain id
  | pass held idle chosen first live holder waiting level base => exact absurd plain id
  | leave live holder waiting level base =>
      rw [holder] at isHolder
      exact ⟨isHolder, ((waiting lock waiter).mp isWaiter).1, by rw [level], by rw [level],
        by rw [base]⟩
  | die live holder waiting level base =>
      rw [holder] at isHolder
      exact ⟨isHolder, ((waiting lock waiter).mp isWaiter).1, by rw [level], by rw [level],
        by rw [base]⟩
  | @born newcomer value fresh live holder waiting level base =>
      rw [holder] at isHolder
      rw [waiting] at isWaiter
      have ownerOld : owner ≠ newcomer := by
        rintro rfl
        exact fresh (holders lock owner isHolder)
      have waiterOld : waiter ≠ newcomer := by
        rintro rfl
        exact fresh (wellFormed.live lock waiter isWaiter)
      refine ⟨isHolder, isWaiter, ?_, ?_, ?_⟩
      · rw [level, Function.update_of_ne ownerOld]
      · rw [level, Function.update_of_ne waiterOld]
      · rw [base, Function.update_of_ne waiterOld]

/-! ### A holder and the bases of its waiters -/

def Direct (s : State Task Lock Level) : Prop :=
  ∀ lock owner waiter, s.holder lock = some owner → s.waiting lock waiter →
    s.level owner ≤ s.base waiter

/-- The other locks of a task that drops one have no waiter with a base below
its own. -/
def DropsSafely (s : State Task Lock Level) : Event Task Lock → Prop
  | .drop lock t => ∀ other waiter, other ≠ lock → s.holder other = some t →
      s.waiting other waiter → s.base t ≤ s.base waiter
  | _ => True

omit [DecidableEq Lock] in
/-- The part that is common to a release and a handover: of a task that drops a
lock only the other locks count. -/
theorem direct_of_drop (holds : Direct before) {lock other : Lock} {t owner waiter : Task}
    (safe : DropsSafely before (.drop lock t)) (different : other ≠ lock)
    (isHolder : before.holder other = some owner) (isWaiter : before.waiting other waiter) :
    Function.update before.level t (before.base t) owner ≤ before.base waiter := by
  by_cases same : owner = t
  · subst owner
    rw [Function.update_self]
    exact safe other waiter different isHolder isWaiter
  · rw [Function.update_of_ne same]
    exact holds other owner waiter isHolder isWaiter

theorem Step.direct (holds : Direct before) (wellFormed : WellFormed before)
    (below : Below before) (holders : HoldersLive before) (step : Step before after event)
    (safe : DropsSafely before event) : Direct after := by
  intro lock owner waiter isHolder isWaiter
  have unchanged : event.Plain → after.level owner ≤ after.base waiter := by
    intro plain
    have pair := step.samePair wellFormed holders plain isHolder isWaiter
    rw [pair.ownerLevel, pair.waiterBase]
    exact holds lock owner waiter pair.holds pair.waits
  cases step with
  | @join joined joiner lender held foreign joinerLive idle live holder waiting lent base =>
      rw [base]
      rw [holder] at isHolder
      rcases (waiting lock waiter).mp isWaiter with old | ⟨isLock, isJoiner⟩
      · exact (lent.le owner).trans (holds lock owner waiter isHolder old)
      · subst isLock
        subst isJoiner
        rw [held] at isHolder
        cases isHolder
        exact (lent.holder_le isWaiter).trans (below waiter joinerLive)
  | @release dropped dropper held idle nobody live holder waiting level base =>
      rw [level, base]
      rw [holder] at isHolder
      rw [waiting] at isWaiter
      have different : lock ≠ dropped := by
        rintro rfl
        exact nobody waiter isWaiter
      rw [Function.update_of_ne different] at isHolder
      exact direct_of_drop holds safe different isHolder isWaiter
  | @pass dropped dropper heir held idle chosen first live holder waiting level base =>
      rw [level, base]
      rw [holder] at isHolder
      obtain ⟨old, notHeir⟩ := (waiting lock waiter).mp isWaiter
      by_cases same : lock = dropped
      · subst lock
        rw [Function.update_self] at isHolder
        cases isHolder
        have notDropper : owner ≠ dropper := by
          rintro rfl
          exact idle dropped chosen
        rw [Function.update_of_ne notDropper]
        exact (first waiter old).trans (below waiter (wellFormed.live _ _ old))
      · rw [Function.update_of_ne same] at isHolder
        exact direct_of_drop holds safe same isHolder old
  | rest _ _ _ _ _ => exact unchanged trivial
  | take _ _ _ _ _ _ _ => exact unchanged trivial
  | leave _ _ _ _ _ => exact unchanged trivial
  | die _ _ _ _ _ => exact unchanged trivial
  | born _ _ _ _ _ _ => exact unchanged trivial

/-! ### Chains -/

def Edge (s : State Task Lock Level) : Prop :=
  ∀ lock owner waiter, s.holder lock = some owner → s.waiting lock waiter →
    s.level owner ≤ s.level waiter

def BlockedBy (s : State Task Lock Level) (waiter owner : Task) : Prop :=
  ∃ lock, s.waiting lock waiter ∧ s.holder lock = some owner

omit [DecidableEq Task] [DecidableEq Lock] in
theorem Edge.chain {s : State Task Lock Level} (holds : Edge s) {first last : Task}
    (chain : Relation.ReflTransGen (BlockedBy s) first last) : s.level last ≤ s.level first := by
  induction chain with
  | refl => exact le_rfl
  | tail _ blocked ih =>
      obtain ⟨lock, isWaiter, isHolder⟩ := blocked
      exact (holds lock _ _ isHolder isWaiter).trans ih

omit [DecidableEq Task] [DecidableEq Lock] in
/-- Levels are passed on along a chain of waiters that are at their bases. -/
theorem Direct.chain {s : State Task Lock Level} (holds : Direct s) {first last : Task}
    (chain : Relation.ReflTransGen
      (fun waiter owner => BlockedBy s waiter owner ∧ s.level waiter = s.base waiter)
      first last) :
    s.level last ≤ s.level first := by
  induction chain with
  | refl => exact le_rfl
  | tail _ link ih =>
      obtain ⟨⟨lock, isWaiter, isHolder⟩, atBase⟩ := link
      have direct := holds lock _ _ isHolder isWaiter
      rw [← atBase] at direct
      exact direct.trans ih

/-- A task that joins behind a holder that waits itself is no more urgent than
the task the holder waits for, and a task that drops a lock holds no other. -/
def KeepsChains (s : State Task Lock Level) : Event Task Lock → Prop
  | .join lock t => ∀ owner other next, s.holder lock = some owner → s.waiting other owner →
      s.holder other = some next → s.level next ≤ s.level t
  | .drop lock t => ∀ other, other ≠ lock → s.holder other ≠ some t
  | _ => True

omit [DecidableEq Lock] in
/-- A boost of the holder reaches no further: what the holder waits for has to be
urgent enough already. -/
theorem edge_of_join (holds : Edge before) {joined lock : Lock}
    {joiner lender owner waiter : Task} {level : Task → Level} {waits : Task → Prop}
    (held : before.holder joined = some lender)
    (waitsIs : ∀ t, waits t ↔ before.waiting joined t ∨ t = joiner)
    (lent : Lent before.level waits lender level)
    (safe : KeepsChains before (.join joined joiner))
    (isHolder : before.holder lock = some owner) (isWaiter : before.waiting lock waiter) :
    level owner ≤ level waiter := by
  by_cases isLender : waiter = lender
  · subst waiter
    by_cases same : owner = lender
    · rw [same]
    · rw [lent.other same]
      rcases lent with ⟨rfl, _⟩ | ⟨best, isBest, below, _, rfl⟩
      · exact holds lock owner lender isHolder isWaiter
      · rw [Function.update_self]
        rcases (waitsIs best).mp isBest with old | rfl
        · exact absurd (holds joined lender best held old) (not_le_of_gt below)
        · exact safe lender lock owner held isWaiter isHolder
  · rw [lent.other isLender]
    exact (lent.le owner).trans (holds lock owner waiter isHolder isWaiter)

theorem Step.edge (holds : Edge before) (wellFormed : WellFormed before)
    (holders : HoldersLive before) (step : Step before after event)
    (safe : KeepsChains before event) : Edge after := by
  intro lock owner waiter isHolder isWaiter
  have unchanged : event.Plain → after.level owner ≤ after.level waiter := by
    intro plain
    have pair := step.samePair wellFormed holders plain isHolder isWaiter
    rw [pair.ownerLevel, pair.waiterLevel]
    exact holds lock owner waiter pair.holds pair.waits
  cases step with
  | @join joined joiner lender held foreign joinerLive idle live holder waiting lent base =>
      rw [holder] at isHolder
      rcases (waiting lock waiter).mp isWaiter with old | ⟨isLock, isJoiner⟩
      · refine edge_of_join holds held (fun t => ?_) lent safe isHolder old
        rw [waiting joined t, eq_self_iff_true, true_and]
      · subst isLock
        subst isJoiner
        rw [held] at isHolder
        cases isHolder
        rw [lent.other foreign.symm]
        exact lent.holder_le isWaiter
  | @release dropped dropper held idle nobody live holder waiting level base =>
      rw [holder] at isHolder
      rw [waiting] at isWaiter
      have different : lock ≠ dropped := by
        rintro rfl
        exact nobody waiter isWaiter
      rw [Function.update_of_ne different] at isHolder
      have notDropper : owner ≠ dropper := by
        rintro rfl
        exact safe lock different isHolder
      have notIdle : waiter ≠ dropper := by
        rintro rfl
        exact idle lock isWaiter
      rw [level, Function.update_of_ne notDropper, Function.update_of_ne notIdle]
      exact holds lock owner waiter isHolder isWaiter
  | @pass dropped dropper heir held idle chosen first live holder waiting level base =>
      rw [holder] at isHolder
      obtain ⟨old, notHeir⟩ := (waiting lock waiter).mp isWaiter
      have notIdle : waiter ≠ dropper := by
        rintro rfl
        exact idle lock old
      by_cases same : lock = dropped
      · subst lock
        rw [Function.update_self] at isHolder
        cases isHolder
        have notDropper : owner ≠ dropper := by
          rintro rfl
          exact idle dropped chosen
        rw [level, Function.update_of_ne notDropper, Function.update_of_ne notIdle]
        exact first waiter old
      · rw [Function.update_of_ne same] at isHolder
        have notDropper : owner ≠ dropper := by
          rintro rfl
          exact safe lock same isHolder
        rw [level, Function.update_of_ne notDropper, Function.update_of_ne notIdle]
        exact holds lock owner waiter isHolder old
  | rest _ _ _ _ _ => exact unchanged trivial
  | take _ _ _ _ _ _ _ => exact unchanged trivial
  | leave _ _ _ _ _ => exact unchanged trivial
  | die _ _ _ _ _ => exact unchanged trivial
  | born _ _ _ _ _ _ => exact unchanged trivial

/-! ### No boost without a lender -/

def Backed (s : State Task Lock Level) (t : Task) (spared : Task → Prop) : Prop :=
  ∃ lock lender, s.holder lock = some t ∧ s.waiting lock lender ∧ s.level lender = s.level t ∧
    spared lender

/-- Every live task that is more urgent than its base has a lender. -/
def Witnessed (s : State Task Lock Level) : Prop :=
  ∀ t, s.live t → s.level t < s.base t → Backed s t fun _ => True

/-- Every boosted task keeps a lender at its level: one that does not leave, does
not die, and is not boosted itself. -/
def KeepsLenders (s : State Task Lock Level) : Event Task Lock → Prop
  | .leave gone => ∀ t, s.live t → s.level t < s.base t → Backed s t fun lender => ¬ gone lender
  | .die victim => ∀ t, s.live t → t ≠ victim → s.level t < s.base t →
      Backed s t fun lender => lender ≠ victim
  | .join lock joiner => ∀ owner, s.holder lock = some owner →
      (∃ waiter, (s.waiting lock waiter ∨ waiter = joiner) ∧ s.level waiter < s.level owner) →
      ∀ t, s.live t → t ≠ owner → s.level t < s.base t → Backed s t fun lender => lender ≠ owner
  | _ => True

omit [DecidableEq Task] [DecidableEq Lock] [LinearOrder Level] in
theorem Backed.of_kept {t : Task} {spared : Task → Prop} (backed : Backed before t spared)
    (level : after.level t = before.level t)
    (kept : ∀ lock lender, before.holder lock = some t → before.waiting lock lender →
      spared lender → after.holder lock = some t ∧ after.waiting lock lender ∧
        after.level lender = before.level lender) : Backed after t fun _ => True := by
  obtain ⟨lock, lender, isHolder, isWaiter, same, isSpared⟩ := backed
  obtain ⟨stillHolder, stillWaiter, sameLevel⟩ := kept lock lender isHolder isWaiter isSpared
  exact ⟨lock, lender, stillHolder, stillWaiter, by rw [sameLevel, level, same], trivial⟩

omit [DecidableEq Lock] in
theorem witnessed_of_drop (holds : Witnessed before) {lock : Lock} {t dropper : Task}
    (held : before.holder lock = some dropper) (idle : ∀ other, ¬ before.waiting other dropper)
    (live : before.live t)
    (level : after.level = Function.update before.level dropper (before.base dropper))
    (boosted : after.level t < before.base t)
    (holder : ∀ other, other ≠ lock → after.holder other = before.holder other)
    (waiting : ∀ other waiter, other ≠ lock → before.waiting other waiter →
      after.waiting other waiter) : Backed after t fun _ => True := by
  have notDropper : t ≠ dropper := by
    rintro rfl
    rw [level, Function.update_self] at boosted
    exact lt_irrefl _ boosted
  have sameLevel : after.level t = before.level t := by
    rw [level, Function.update_of_ne notDropper]
  refine (holds t live (sameLevel ▸ boosted)).of_kept sameLevel ?_
  intro other lender isHolder isWaiter _
  have different : other ≠ lock := by
    rintro rfl
    rw [held] at isHolder
    cases isHolder
    exact notDropper rfl
  refine ⟨by rw [holder other different, isHolder], waiting other lender different isWaiter, ?_⟩
  have lenderIdle : lender ≠ dropper := by
    rintro rfl
    exact idle other isWaiter
  rw [level, Function.update_of_ne lenderIdle]

omit [DecidableEq Lock] in
/-- The holder of the lock is boosted by a task that waits for it now, and a boost of
the holder takes no lender from anybody else. -/
theorem witnessed_of_join (holds : Witnessed before) {joined : Lock} {joiner owner t : Task}
    (held : before.holder joined = some owner) (holder : after.holder = before.holder)
    (waiting : ∀ other waiter, after.waiting other waiter ↔
      before.waiting other waiter ∨ (other = joined ∧ waiter = joiner))
    (lent : Lent before.level (after.waiting joined) owner after.level)
    (safe : KeepsLenders before (.join joined joiner)) (isLive : before.live t)
    (boosted : after.level t < before.base t) : Backed after t fun _ => True := by
  have stillWaits : ∀ lock lender, before.waiting lock lender → after.waiting lock lender :=
    fun lock lender isWaiter => (waiting lock lender).mpr (Or.inl isWaiter)
  rcases lent with ⟨level, _⟩ | ⟨best, isBest, below, _, level⟩
  · rw [level] at boosted
    refine (holds t isLive boosted).of_kept (by rw [level])
      fun lock lender isHolder isWaiter _ => ?_
    rw [holder, level]
    exact ⟨isHolder, stillWaits lock lender isWaiter, rfl⟩
  · by_cases isOwner : t = owner
    · subst t
      have lenderIs : best ≠ owner := by
        rintro rfl
        exact lt_irrefl _ below
      refine ⟨joined, best, by rw [holder]; exact held, isBest, ?_, trivial⟩
      rw [level, Function.update_self, Function.update_of_ne lenderIs]
    · have someone : ∃ waiter, (before.waiting joined waiter ∨ waiter = joiner) ∧
          before.level waiter < before.level owner := by
        refine ⟨best, ?_, below⟩
        exact ((waiting joined best).mp isBest).imp id fun both => both.2
      rw [level, Function.update_of_ne isOwner] at boosted
      refine (safe owner held someone t isLive isOwner boosted).of_kept
        (by rw [level, Function.update_of_ne isOwner])
        fun lock lender isHolder isWaiter notOwner => ?_
      rw [holder, level, Function.update_of_ne notOwner]
      exact ⟨isHolder, stillWaits lock lender isWaiter, rfl⟩

theorem Step.witnessed (holds : Witnessed before) (wellFormed : WellFormed before)
    (step : Step before after event) (safe : KeepsLenders before event) : Witnessed after := by
  intro t isLive boosted
  cases step with
  | rest live holder waiting level base =>
      rw [level, base] at boosted
      rw [live] at isLive
      refine (holds t isLive boosted).of_kept (by rw [level])
        fun lock lender isHolder isWaiter _ => ?_
      rw [holder, waiting, level]
      exact ⟨isHolder, isWaiter, rfl⟩
  | @take taken taker nobody takerLive live holder waiting level base =>
      rw [level, base] at boosted
      rw [live] at isLive
      refine (holds t isLive boosted).of_kept (by rw [level])
        fun lock lender isHolder isWaiter _ => ?_
      have different : lock ≠ taken := by
        rintro rfl
        exact nobody lender isWaiter
      rw [holder, Function.update_of_ne different, waiting, level]
      exact ⟨isHolder, isWaiter, rfl⟩
  | join held foreign joinerLive idle live holder waiting lent base =>
      rw [base] at boosted
      rw [live] at isLive
      exact witnessed_of_join holds held holder waiting lent safe isLive boosted
  | @release dropped dropper held idle nobody live holder waiting level base =>
      rw [base] at boosted
      rw [live] at isLive
      refine witnessed_of_drop holds held idle isLive level boosted ?_ ?_
      · intro other different
        rw [holder, Function.update_of_ne different]
      · intro other waiter _ isWaiter
        rw [waiting]
        exact isWaiter
  | @pass dropped dropper heir held idle chosen first live holder waiting level base =>
      rw [base] at boosted
      rw [live] at isLive
      refine witnessed_of_drop holds held idle isLive level boosted ?_ ?_
      · intro other different
        rw [holder, Function.update_of_ne different]
      · intro other waiter different isWaiter
        refine (waiting other waiter).mpr ⟨isWaiter, ?_⟩
        rintro rfl
        exact different (wellFormed.one other dropped waiter isWaiter chosen)
  | leave live holder waiting level base =>
      rw [level, base] at boosted
      rw [live] at isLive
      refine (safe t isLive boosted).of_kept (by rw [level])
        fun lock lender isHolder isWaiter stays => ?_
      rw [holder, level]
      exact ⟨isHolder, (waiting lock lender).mpr ⟨isWaiter, stays⟩, rfl⟩
  | die live holder waiting level base =>
      rw [level, base] at boosted
      obtain ⟨wasLive, notVictim⟩ := (live t).mp isLive
      refine (safe t wasLive notVictim boosted).of_kept (by rw [level])
        fun lock lender isHolder isWaiter stays => ?_
      rw [holder, level]
      exact ⟨isHolder, (waiting lock lender).mpr ⟨isWaiter, stays⟩, rfl⟩
  | @born newcomer value fresh live holder waiting level base =>
      have old : t ≠ newcomer := by
        rintro rfl
        rw [level, base, Function.update_self, Function.update_self] at boosted
        exact lt_irrefl _ boosted
      rw [level, base, Function.update_of_ne old, Function.update_of_ne old] at boosted
      have wasLive := ((live t).mp isLive).resolve_right old
      refine (holds t wasLive boosted).of_kept (by rw [level, Function.update_of_ne old])
        fun lock lender isHolder isWaiter _ => ?_
      have lenderOld : lender ≠ newcomer := by
        rintro rfl
        exact fresh (wellFormed.live lock lender isWaiter)
      rw [holder, waiting, level, Function.update_of_ne lenderOld]
      exact ⟨isHolder, isWaiter, rfl⟩

end MicrokernelRtos.Inheritance
