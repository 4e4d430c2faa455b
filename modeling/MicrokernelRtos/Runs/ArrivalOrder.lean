/-
The order of the waiters.

The list operations append at the tail and pop at the head.  A task that was woken
has left its list, and if it finds nothing to take it appends itself again within
the same call, behind the tasks that have come in the meantime.
-/

import MicrokernelRtos.Runs.Retries

namespace MicrokernelRtos

open Linked Transition

/-- Of two tasks on one list the one whose call first blocked earlier is ahead. -/
def InArrivalOrder (s : HistoryState) : Prop :=
  ∃ waits, s.passes.kernel.WaitsAre waits ∧
    ∀ list left right early late, left ∈ waits list → right ∈ waits list →
      s.first left = some early → s.first right = some late → early.moment < late.moment →
      List.Sublist [left, right] (waits list)

/-- No mutex is used, and no call blocks again behind a task that came later. -/
def KeepsPlaces (s : HistoryState) (action : PassAction) : Prop :=
  action.mutexFree = true ∧ (action = .resume → ∀ caller call first,
    BlocksAgain s caller call first → ∀ list ∈ call.list, ∀ t ∈ s.passes.live,
      Sleeps s.passes.kernel.toCore t list → ∀ late, s.first t = some late →
        late.moment ≤ first.moment)

variable {s after : HistoryState} {action : PassAction} {self t : Addr} {call : Call}
variable {system later : System} {kernel result : Kernel} {first : FirstBlock} {list : WaitId}
variable {waits changed : WaitId → List Addr}

/-! ### The lists after a step -/

theorem step_waits {choice : Action} (holds : SystemCoherent system)
    (waiting : WaitCoherent system.kernel waits noWindow) (noCall : ∀ call, choice ≠ .call call)
    (taken : step system choice = some later) :
    ∃ changed, WaitCoherent later.kernel changed noWindow ∧
      ∀ list, List.Sublist (changed list) (waits list) := by
  cases step_moves taken with
  | stays => exact ⟨waits, waiting, fun _ => List.Sublist.refl _⟩
  | creates fresh addition =>
      obtain ⟨_, _, unregistered, bounded⟩ := holds.toLiveRegistry.fresh fresh
      exact ⟨waits, create_waits waiting unregistered bounded addition,
        fun _ => List.Sublist.refl _⟩
  | @deletes tcb detached removed member notIdle notCurrent detachment removal =>
      exact ⟨removeWaiter waits tcb, delete_waits waiting rfl notCurrent detachment removal,
        fun _ => List.erase_sublist⟩
  | calls can returned => exact absurd rfl (noCall _)
  | yields => exact ⟨waits, waiting.congr rfl rfl rfl rfl rfl rfl rfl, fun _ => List.Sublist.refl _⟩
  | ticks tick => exact ⟨_, sysTickHandler_waits waiting tick, fun _ => List.filter_sublist⟩
  | selects returned =>
      obtain ⟨member, awake, _⟩ := holds.selected returned
      have frame := schedulerGetNext_onlyRings returned
      exact ⟨waits, frame.waitCoherent (select_waits waiting member awake),
        fun _ => List.Sublist.refl _⟩
  | dispatches member awake =>
      exact ⟨waits, select_waits waiting member awake, fun _ => List.Sublist.refl _⟩

/-- What a pass does to the lists: somebody may have left, or the caller has been added to
the list of its call. -/
def PassLists (waits changed : WaitId → List Addr) (self : Addr) (call : Call)
    (outcome : Outcome) : Prop :=
  (∀ list, List.Sublist (changed list) (waits list)) ∧ (outcome = .blocks → call.list = none) ∨
    ∃ list, outcome = .blocks ∧ call.list = some list ∧ changed = addWaiter waits list self

theorem passLists_returns {status : Status} {out : List UInt8}
    (fewer : ∀ list, List.Sublist (changed list) (waits list)) :
    PassLists waits changed self call (.returns status out) := by
  refine Or.inl ⟨fewer, fun isBlocks => ?_⟩
  cases isBlocks

theorem rtosBlockCurrent_waits
    (waiting : WaitCoherent kernel waits (Function.update noWindow self call.list))
    (isCurrent : kernel.currentTcb = some self) (awake : kernel.state self ≠ .blocked)
    (returned : rtosBlockCurrent kernel call.timeoutTicks call.reason call.object =
      some (.blocks, result)) : WaitCoherent result waits noWindow := by
  unfold rtosBlockCurrent at returned
  rw [isCurrent] at returned
  obtain ⟨blocked, region, equal⟩ := Option.map_eq_some_iff.mp returned
  cases equal
  have fields := blockFields_waits waiting awake call.reason call.object
  have live := waiting.registry.current self isCurrent
  have done := @blockRegion_waits _ _ _ _ self _ fields live awake
    (by simp [blockFields, Call.list]) region
  have same : Function.update (Function.update noWindow self call.list) self none = noWindow := by
    rw [Function.update_idem]
    exact Function.update_eq_self self noWindow
  rw [same] at done
  exact done

theorem wakeHead_sublist (waiting : WaitCoherent kernel waits noWindow)
    (returned : wakeHead kernel list = some result) :
    ∃ changed, WaitCoherent result changed noWindow ∧
      ∀ target, List.Sublist (changed target) (waits target) := by
  refine ⟨_, wakeHead_waits waiting ?_ returned, fun target => ?_⟩
  · intro first headAt
    rw [(waiting.lists.queue list).head_eq] at headAt
    exact waiting.mem_blocked (List.mem_of_head? headAt)
  · by_cases same : target = list
    · subst target
      rw [Function.update_self]
      exact List.tail_sublist _
    · rw [Function.update_of_ne same]

theorem callPass_waits {outcome : Outcome} (waiting : WaitCoherent kernel waits noWindow)
    (isCurrent : kernel.currentTcb = some self) (awake : kernel.state self ≠ .blocked)
    (plain : call.isMutex = false)
    (returned : callPass kernel self call = some (outcome, result)) :
    ∃ changed, WaitCoherent result changed noWindow ∧
      PassLists waits changed self call outcome := by
  cases callPass_course isCurrent plain returned with
  | fails failed waitsNowhere none =>
      exact ⟨waits, waiting, passLists_returns fun _ => List.Sublist.refl _⟩
  | takes isWait positive =>
      exact ⟨waits, waiting.congr rfl rfl rfl rfl rfl rfl rfl,
        passLists_returns fun _ => List.Sublist.refl _⟩
  | @supplies list raised woken out pendSv supplied wake =>
      obtain ⟨semaphore, msgQueue, rfl⟩ := supplies_frame supplied
      have written : WaitCoherent { kernel with semaphore := semaphore, msgQueue := msgQueue }
          waits noWindow := waiting.congr rfl rfl rfl rfl rfl rfl rfl
      obtain ⟨changed, left, fewer⟩ := wakeHead_sublist written wake
      exact ⟨changed, left.congr rfl rfl rfl rfl rfl rfl rfl, passLists_returns fewer⟩
  | @joins list queued _ isList none exhausted enqueued blocked =>
      have core := (tcbEnqueueTail_onlyWaits enqueued).core
      have live := waiting.registry.current self isCurrent
      have joined := tcbEnqueueTail_waits waiting live awake rfl enqueued
      rw [← isList] at joined
      have done := rtosBlockCurrent_waits joined (by rw [core]; exact isCurrent)
        (by rw [core]; exact awake) blocked
      exact ⟨_, done, Or.inr ⟨list, rfl, isList, rfl⟩⟩
  | @delays ticks _ isDelay blocked =>
      subst isDelay
      have outside : Function.update noWindow self (Call.delay ticks).list = noWindow :=
        Function.update_eq_self self noWindow
      rw [← outside] at waiting
      exact ⟨waits, rtosBlockCurrent_waits waiting isCurrent awake blocked,
        Or.inl ⟨fun _ => List.Sublist.refl _, fun _ => rfl⟩⟩

theorem historyStep_lists (holds : HistoryCoherent s) (free : action.mutexFree = true)
    (waiting : WaitCoherent s.passes.kernel waits noWindow)
    (taken : historyStep s action = some after) :
    ∃ changed, WaitCoherent after.passes.kernel changed noWindow ∧
      ((∀ list, List.Sublist (changed list) (waits list)) ∨
        ∃ caller call list, s.passes.kernel.state caller ≠ .blocked ∧
          after.passes.calls caller = some call ∧ call.list = some list ∧
          changed = addWaiter waits list caller) := by
  obtain ⟨passes, stepped, rfl⟩ := Option.map_eq_some_iff.mp taken
  rcases passStep_cases stepped with ⟨choice, later, rfl, noCall, moved, rfl⟩ |
    ⟨self, call, status, isCurrent, can, wasIn, ends, rfl⟩ |
    ⟨self, call, outcome, result, isCurrent, can, course, returned, rfl⟩
  · obtain ⟨changed, left, fewer⟩ := step_waits holds.passes.system waiting noCall moved
    exact ⟨changed, left, Or.inl fewer⟩
  · exact ⟨waits, waiting, Or.inl fun _ => List.Sublist.refl _⟩
  · have awake := (canCall_some can isCurrent).2
    obtain ⟨changed, left, ⟨fewer, _⟩ | ⟨list, rfl, isList, joined⟩⟩ :=
      callPass_waits waiting isCurrent awake (holds.passes.isPlain free course) returned
    · exact ⟨changed, left, Or.inl fewer⟩
    · refine ⟨changed, left, Or.inr ⟨self, call, list, awake, ?_, isList, joined⟩⟩
      simp [HistoryState.after, PassState.passed]

theorem historyStep_first (holds : HistoryCoherent s) (free : action.mutexFree = true)
    (taken : historyStep s action = some after) (live : t ∈ after.passes.live)
    (asleep : s.passes.kernel.state t = .blocked)
    (blocked : after.passes.kernel.state t = .blocked) : after.first t = s.first t := by
  obtain ⟨call, inCall, _⟩ := (historyStep_keeps holds free taken).passes.asleep t live blocked
  rcases historyStep_blocked holds.passes free taken inCall blocked with
    ⟨_, _, same, _⟩ | ⟨isCurrent, can, _⟩
  · exact same
  · exact absurd asleep (canCall_some can isCurrent).2

/-! ### The order -/

def NotLater (record : Addr → Option FirstBlock) (left right : Addr) : Prop :=
  ∀ early late, record left = some early → record right = some late → early.moment ≤ late.moment

theorem historyStep_notLater (holds : HistoryCoherent s) (permitted : KeepsPlaces s action)
    (waiting : WaitCoherent s.passes.kernel waits noWindow)
    (ordered : ∀ list, (waits list).Pairwise (NotLater s.first))
    (taken : historyStep s action = some after) :
    ∃ changed, WaitCoherent after.passes.kernel changed noWindow ∧
      ∀ list, (changed list).Pairwise (NotLater after.first) := by
  have kept := historyStep_keeps holds permitted.1 taken
  obtain ⟨changed, left, lists⟩ := historyStep_lists holds permitted.1 waiting taken
  refine ⟨changed, left, fun list => ?_⟩
  have same : ∀ t, t ∈ waits list → t ∈ changed list → after.first t = s.first t := by
    intro t old member
    have live := ((kept.passes.system.mem_iff left list t).mp member).1
    exact historyStep_first holds permitted.1 taken live (waiting.mem_blocked old)
      (left.mem_blocked member)
  have older : ∀ items, List.Sublist items (waits list) → items ⊆ changed list →
      items.Pairwise (NotLater after.first) := by
    intro items fewer inside
    refine ((ordered list).sublist fewer).imp_of_mem ?_
    intro ahead behind aheadIn behindIn inOrder early late isEarly isLate
    rw [same ahead (fewer.subset aheadIn) (inside aheadIn)] at isEarly
    rw [same behind (fewer.subset behindIn) (inside behindIn)] at isLate
    exact inOrder early late isEarly isLate
  rcases lists with fewer | ⟨caller, call, target, awake, inCall, isList, rfl⟩
  · exact older (changed list) (fewer list) (List.Subset.refl _)
  · by_cases here : list = target
    · subst list
      have callerIn : caller ∈ addWaiter waits target caller target := by simp [mem_addWaiter]
      have front : waits target ⊆ addWaiter waits target caller target :=
        fun t member => (mem_addWaiter waits target caller target t).mpr (Or.inl member)
      have others := older _ (List.Sublist.refl _) front
      rw [addWaiter, Function.update_self, List.pairwise_append]
      refine ⟨others, List.pairwise_singleton _ _, ?_⟩
      intro t old last isLast early late isEarly isLate
      rw [List.mem_singleton.mp isLast] at isLate
      rw [same t old (front old)] at isEarly
      rcases historyStep_blocked holds.passes permitted.1 taken inCall
        (left.mem_blocked callerIn) with ⟨wasBlocked, _⟩ | ⟨isCurrent, can, effect, now⟩
      · exact absurd wasBlocked awake
      · generalize after.first caller = record at now isLate
        cases now with
        | new outside =>
            cases isLate
            exact Nat.le_of_lt (holds.past t early isEarly)
        | again wasIn inTime waitsOn =>
            obtain ⟨live, sleeps⟩ := (holds.passes.system.mem_iff waiting target t).mp old
            exact permitted.2 rfl caller call late ⟨isCurrent, can, wasIn, isLate, inTime, _,
              waitsOn, (effect.blocks_iff waitsOn).mp rfl⟩ target isList t live sleeps early isEarly
    · have unchanged : addWaiter waits target caller list = waits list :=
        Function.update_of_ne here _ _
      rw [unchanged]
      refine older _ (List.Sublist.refl _) ?_
      rw [unchanged]
      exact List.Subset.refl _

theorem sublist_of_pairwise {items : List Addr} {related : Addr → Addr → Prop} {left right : Addr}
    (ordered : items.Pairwise related) (leftIn : left ∈ items) (rightIn : right ∈ items)
    (different : left ≠ right) (excluded : ¬ related right left) :
    List.Sublist [left, right] items := by
  obtain ⟨front, back, rfl⟩ := List.append_of_mem leftIn
  rcases List.mem_append.mp rightIn with ahead | behind
  · have clash := (List.pairwise_append.mp ordered).2.2 right ahead left List.mem_cons_self
    exact absurd clash excluded
  · have later : right ∈ back := (List.mem_cons.mp behind).resolve_left (Ne.symm different)
    refine List.Sublist.trans ?_ (List.sublist_append_right front _)
    exact (List.singleton_sublist.mpr later).cons_cons left

theorem inArrivalOrder_of_notLater (waiting : WaitCoherent s.passes.kernel waits noWindow)
    (ordered : ∀ list, (waits list).Pairwise (NotLater s.first)) : InArrivalOrder s := by
  refine ⟨waits, waiting.lists, ?_⟩
  intro list left right early late leftIn rightIn isEarly isLate before
  refine sublist_of_pairwise (ordered list) leftIn rightIn ?_ ?_
  · rintro rfl
    rw [isEarly] at isLate
    cases isLate
    exact absurd before (Nat.lt_irrefl _)
  · intro notLater
    exact absurd (notLater late early isLate isEarly) (Nat.not_le.mpr before)

/-- A caller that blocks again behind a task that came later is out of order. -/
theorem BlocksAgain.overtaken {late : FirstBlock} (again : BlocksAgain s self call first)
    (holds : HistoryCoherent s) (isList : call.list = some list) (live : t ∈ s.passes.live)
    (sleeps : Sleeps s.passes.kernel.toCore t list) (isLate : s.first t = some late)
    (before : first.moment < late.moment) :
    ∃ after, historyStep s .resume = some after ∧ ¬ InArrivalOrder after := by
  obtain ⟨result, returned, taken, inCall, isFirst⟩ := again.taken holds
  obtain ⟨waits, waiting⟩ := holds.passes.system.coherent.waits
  have awake := (canCall_some again.able again.current).2
  obtain ⟨changed, left, ⟨_, nowhere⟩ | ⟨other, _, isOther, rfl⟩⟩ := callPass_waits waiting
    again.current awake (holds.passes.plain self call again.inCall) returned
  · have clash := isList.symm.trans (nowhere rfl)
    cases clash
  · have sameList := isList.symm.trans isOther
    cases sameList
    refine ⟨_, taken, fun inOrder => ?_⟩
    obtain ⟨lists, known, order⟩ := inOrder
    cases known.unique left.lists
    have old : t ∈ waits list := (holds.passes.system.mem_iff waiting list t).mpr ⟨live, sleeps⟩
    have member : t ∈ addWaiter waits list self list :=
      (mem_addWaiter waits list self list t).mpr (Or.inl old)
    have ahead := order list self t first late (by simp [mem_addWaiter]) member isFirst
      ((historyStep_first holds rfl taken live sleeps.1 (left.mem_blocked member)).trans isLate)
      before
    have last : (addWaiter waits list self list).Pairwise fun front _ => front ≠ self := by
      have others : ∀ item ∈ waits list, item ≠ self := by
        rintro item inside rfl
        exact awake (waiting.mem_blocked inside)
      rw [addWaiter, Function.update_self, List.pairwise_append]
      refine ⟨List.pairwise_of_forall_sublist fun pair => ?_, List.pairwise_singleton _ _,
        fun front inside _ _ => others front inside⟩
      exact others _ (pair.subset List.mem_cons_self)
    exact last.forall_sublist ahead rfl

/-- The order is kept in every run in which no call blocks again behind a task that came
later, and every such block breaks it. -/
theorem inArrivalOrder_of_reachable (s : HistoryState) :
    (Reachable HistoryStart historyStep KeepsPlaces s → InArrivalOrder s) ∧
    (Reachable HistoryStart historyStep (fun _ action => action.mutexFree = true) s →
      ∀ caller call first list t late, BlocksAgain s caller call first → call.list = some list →
        t ∈ s.passes.live → Sleeps s.passes.kernel.toCore t list → s.first t = some late →
        first.moment < late.moment →
        ∃ after, historyStep s .resume = some after ∧ ¬ InArrivalOrder after) := by
  constructor
  · intro reached
    have ordered := Transition.Reachable.invariant (fun s => HistoryCoherent s ∧
      ∃ waits, WaitCoherent s.passes.kernel waits noWindow ∧
        ∀ list, (waits list).Pairwise (NotLater s.first)) ?_ ?_ reached
    · obtain ⟨_, waits, waiting, inOrder⟩ := ordered
      exact inArrivalOrder_of_notLater waiting inOrder
    · intro s begins
      have holds := begins.historyCoherent
      obtain ⟨waits, waiting⟩ := holds.passes.system.coherent.waits
      refine ⟨holds, waits, waiting, fun list => ?_⟩
      refine List.pairwise_of_forall_sublist fun _ early late isEarly => ?_
      rw [begins.first] at isEarly
      cases isEarly
    · rintro s action after ⟨holds, waits, waiting, inOrder⟩ permitted taken
      exact ⟨historyStep_keeps holds permitted.1 taken,
        historyStep_notLater holds permitted waiting inOrder taken⟩
  · intro reached caller call first list t late again isList live sleeps isLate before
    have holds := Reachable.historyCoherent (fun _ _ free => free) reached
    exact again.overtaken holds isList live sleeps isLate before

theorem inArrivalOrder_after_retry :
    ∃ s, Reachable HistoryStart historyStep KeepsPlaces s ∧
      s.passes.kernel.waitHead (.semaphore 0) = some 1 ∧
      s.passes.kernel.mutexWaitNext 1 = some 2 ∧ InArrivalOrder s := by
  obtain ⟨final, reached, found⟩ :=
    @exists_reachable_of_run HistoryState PassAction HistoryStart historyStep KeepsPlaces
      (fun s a => a.mutexFree && (s.passes.kernel.currentTcb.bind s.first).all fun first =>
        s.passes.live.all fun t => (s.first t).all fun late => decide (late.moment ≤ first.moment))
      (fun s => decide (s.passes.kernel.waitHead (.semaphore 0) = some 1 ∧
        s.passes.kernel.mutexWaitNext 1 = some 2))
      (by
        intro s action checked
        rw [Bool.and_eq_true] at checked
        refine ⟨checked.1, fun _ caller call first again list _ t live _ late isLate => ?_⟩
        have bound := checked.2
        rw [again.current, Option.bind_some, again.known] at bound
        have latest := List.all_eq_true.mp bound t live
        rw [isLate] at latest
        simpa using latest)
      [.other (.create (some 0) 100 256 (some 1) (some 0)),
        .other (.create (some 0) 100 256 (some 2) (some 0)),
        .other (.create (some 0) 100 256 (some 3) (some 0)),
        .other (.dispatch 1), .call (.wait 0 0), .other (.dispatch 3), .call (.post 0),
        .call (.wait 0 0), .other (.dispatch 1), .resume, .other (.dispatch 2),
        .call (.wait 0 0)]
      startedHistory historyStart_startedHistory (by decide +kernel)
  obtain ⟨head, next⟩ := of_decide_eq_true found
  exact ⟨final, reached, head, next, (inArrivalOrder_of_reachable final).1 reached⟩

/-- Two tasks wait for a semaphore, one after the other.  A third one posts and takes the
unit itself, and the first task waits again behind the second one. -/
theorem inArrivalOrder_fails :
    ∃ s, Reachable HistoryStart historyStep (fun _ a => a.mutexFree = true) s ∧
      ¬ InArrivalOrder s := by
  obtain ⟨final, reached, found⟩ :=
    @exists_reachable_of_run HistoryState PassAction HistoryStart historyStep
      (fun _ a => a.mutexFree = true) (fun _ a => a.mutexFree)
      (fun s => decide (s.passes.kernel.waitHead (.semaphore 0) = some 2 ∧
          s.passes.kernel.mutexWaitNext 2 = some 1 ∧ s.passes.kernel.mutexWaitNext 1 = none) &&
        (s.first 1).any fun (early : FirstBlock) => (s.first 2).any fun (late : FirstBlock) =>
          decide (early.moment < late.moment))
      (fun _ _ checked => checked)
      [.other (.create (some 0) 100 256 (some 1) (some 0)),
        .other (.create (some 0) 100 256 (some 2) (some 0)),
        .other (.create (some 0) 100 256 (some 3) (some 0)),
        .other (.dispatch 1), .call (.wait 0 0), .other (.dispatch 2), .call (.wait 0 0),
        .other (.dispatch 3), .call (.post 0), .call (.wait 0 0), .other (.dispatch 1), .resume]
      startedHistory historyStart_startedHistory (by decide +kernel)
  rw [Bool.and_eq_true] at found
  obtain ⟨head, second, last⟩ := of_decide_eq_true found.1
  obtain ⟨early, isEarly, inner⟩ := (Option.any_eq_true _ _).mp found.2
  obtain ⟨late, isLate, before⟩ := (Option.any_eq_true _ _).mp inner
  refine ⟨final, reached, ?_⟩
  rintro ⟨waits, lists, order⟩
  have listIs : waits (.semaphore 0) = [2, 1] := by
    refine (lists.queue (.semaphore 0)).path.unique ?_
    exact ⟨head, second, last⟩
  have ahead := order (.semaphore 0) 1 2 early late (by simp [listIs]) (by simp [listIs]) isEarly
    isLate (of_decide_eq_true before)
  rw [listIs] at ahead
  exact absurd ahead (by decide)

end MicrokernelRtos
