/-
The passes of one call, and its deadline.

`rtos_block_current` adds the whole timeout to the tick count of the moment, and
the loops of the blocking calls pass it the timeout of the call every time.  A
task that was woken and found nothing left therefore waits as long again.  The
history puts on record when the call in progress of a task first blocked.
-/

import MicrokernelRtos.Runs.Progress

namespace MicrokernelRtos

open Linked Transition

structure FirstBlock where
  tick : Nat
  moment : Nat

structure HistoryState where
  passes : PassState
  moment : Nat
  first : Addr → Option FirstBlock

def HistoryState.after (s : HistoryState) (passes : PassState) : HistoryState where
  passes := passes
  moment := s.moment + 1
  first := fun t =>
    match passes.calls t, s.passes.calls t with
    | none, _ => none
    | some _, none => some ⟨rtosGetTick s.passes.kernel, s.moment⟩
    | some _, some _ => s.first t

def historyStep (s : HistoryState) (action : PassAction) : Option HistoryState :=
  (passStep s.passes action).map s.after

structure HistoryStart (s : HistoryState) : Prop where
  passes : PassStart s.passes
  first : s.first = fun _ => none

/-- While a call is in progress and BLOCKED, it ends no later than its timeout after its
first block. -/
def DeadlineKept (s : HistoryState) : Prop :=
  ∀ t call first, s.passes.calls t = some call → s.passes.kernel.state t = .blocked →
    s.first t = some first → 0 < call.timeoutTicks →
    s.passes.kernel.wakeTime t ≤ first.tick + call.timeoutTicks

/-- The call would find nothing to take and block. -/
def Exhausted (core : Core) (call : Call) : Prop :=
  ∃ list ∈ call.list, available core list = 0

/-- The current task goes on in a call that has not timed out and blocks again. -/
structure BlocksAgain (s : HistoryState) (caller : Addr) (call : Call) (first : FirstBlock) :
    Prop where
  current : s.passes.kernel.currentTcb = some caller
  able : canCall s.passes.kernel = true
  inCall : s.passes.calls caller = some call
  known : s.first caller = some first
  inTime : s.passes.kernel.blockWakeStatus caller ≠ .errTimeout
  exhausted : Exhausted s.passes.kernel.toCore call

/-- No mutex is used, and no call with a timeout blocks again at a later tick. -/
def RetriesAtOnce (s : HistoryState) (action : PassAction) : Prop :=
  action.mutexFree = true ∧ (action = .resume → ∀ caller call first,
    BlocksAgain s caller call first → 0 < call.timeoutTicks →
      rtosGetTick s.passes.kernel ≤ first.tick)

variable {s after : HistoryState} {action : PassAction} {self t : Addr} {call : Call}
variable {system later : System} {kernel result : Kernel} {first : FirstBlock}

/-! ### Frames -/

theorem step_wakeTime {choice : Action} (holds : SystemCoherent system)
    (noCall : ∀ call, choice ≠ .call call) (taken : step system choice = some later)
    (live : t ∈ system.live) : later.kernel.wakeTime t = system.kernel.wakeTime t := by
  cases step_moves taken with
  | stays => rfl
  | @creates _ tcb _ _ _ added fresh addition =>
      have different : t ≠ tcb := by
        rintro rfl
        exact (holds.toLiveRegistry.fresh fresh).1 live
      change added.wakeTime t = _
      rw [(schedulerAddTask_onlyRings (Function.update_self _ _ _) addition).core]
      exact Function.update_of_ne different _ _
  | @deletes tcb detached removed member notIdle notCurrent detachment removal =>
      obtain ⟨reason, object, onMutex, fields, _⟩ := detachIfBlocked_core detachment
      change removed.wakeTime t = _
      rw [(schedulerRemoveTask_onlyRings removal).core, fields]
  | calls can returned => exact absurd rfl (noCall _)
  | yields => rfl
  | @ticks ticked tick =>
      obtain ⟨woken, wakes, core⟩ := sysTickHandler_core tick
      change ticked.wakeTime t = _
      rw [core, wakes.fields]
      rfl
  | @selects sel next returned =>
      obtain ⟨state, counter, fields⟩ := select_core system.kernel sel
      change next.wakeTime t = _
      rw [(schedulerGetNext_onlyRings returned).core, fields]
  | @dispatches sel member awake =>
      obtain ⟨state, counter, fields⟩ := select_core system.kernel sel
      change (dispatch (preemptCurrent system.kernel) sel).wakeTime t = _
      rw [fields]

theorem PassEffect.wakeTime {outcome : Outcome}
    (effect : PassEffect kernel self call outcome result) (t : Addr) :
    result.wakeTime t = if outcome = .blocks ∧ t = self then
      wakeTimeFor (rtosGetTick kernel) call.timeoutTicks else kernel.wakeTime t := by
  cases effect with
  | fails failed waitsNowhere none => simp
  | takes isWait positive => simp [setCount]
  | @supplies list raised result out supplied wakes =>
      obtain ⟨semaphore, msgQueue, rfl⟩ := supplies_frame supplied
      rw [if_neg fun both => by cases both.1]
      rcases wakes with ⟨_, core⟩ | ⟨first, _, core⟩
      · rw [core]
      · rw [core]
        rfl
  | blocks none exhausted core =>
      by_cases same : t = self
      · subst t
        simp [core, blockState, blockFields, rtosGetTick]
      · simp [core, blockState, blockFields, same]

theorem PassEffect.blocks_iff {outcome : Outcome} {list : WaitId}
    (effect : PassEffect kernel self call outcome result) (waits : call.list = some list) :
    outcome = .blocks ↔ available kernel.toCore list = 0 := by
  cases effect with
  | fails failed waitsNowhere none =>
      rw [waits] at waitsNowhere
      cases waitsNowhere
  | @takes sem ticks isWait positive =>
      subst isWait
      cases waits
      refine ⟨fun equal => ?_, fun empty => absurd empty (Nat.ne_of_gt positive)⟩
      cases equal
  | @supplies other raised result out supplied wakes =>
      refine ⟨fun equal => (by cases equal), fun empty => ?_⟩
      rcases supplies_cases supplied with ⟨sem, rfl, _⟩ | ⟨q, msg, ticks, rfl, _, room, _⟩ |
        ⟨q, ticks, rfl, _, positive, _⟩
      · cases waits
      · cases waits
        simp only [available] at empty
        omega
      · cases waits
        simp only [available] at empty
        omega
  | blocks none exhausted core => exact ⟨fun _ => exhausted list waits, fun _ => rfl⟩

/-! ### One step -/

theorem after_first_none (new : s.passes.calls t = none) {passes : PassState}
    (inside : passes.calls t = some call) :
    (s.after passes).first t = some ⟨rtosGetTick s.passes.kernel, s.moment⟩ := by
  simp only [HistoryState.after, inside, new]

theorem after_first_some {other : Call} (old : s.passes.calls t = some other) {passes : PassState}
    (inside : passes.calls t = some call) : (s.after passes).first t = s.first t := by
  simp only [HistoryState.after, inside, old]

theorem callPass_blocks (isCurrent : kernel.currentTcb = some self) (plain : call.isMutex = false)
    (returned : callPass kernel self call = some (.blocks, result)) :
    (∃ list, call.list = some list) ∨ ∃ ticks, call = .delay ticks := by
  cases callPass_course isCurrent plain returned with
  | joins isList none exhausted enqueued blocked => exact Or.inl ⟨_, isList⟩
  | delays isDelay blocked => exact Or.inr ⟨_, isDelay⟩

theorem resume_inTime {passes next : PassState} (isCurrent : passes.kernel.currentTcb = some self)
    (inCall : passes.calls self = some call) (taken : passStep passes .resume = some next)
    (still : next.calls self ≠ none) :
    (∀ ticks, call ≠ .delay ticks) ∧ passes.kernel.blockWakeStatus self ≠ .errTimeout := by
  have goesOn : passes.resume self call = some next := by
    simp only [passStep, isCurrent, inCall, Option.bind_some] at taken
    split at taken
    · exact taken
    · cases taken
  have stays : ∀ status, next ≠ passes.finish self call status := by
    rintro status rfl
    exact still (Function.update_self _ _ _)
  constructor
  · rintro ticks rfl
    exact stays _ (Option.some.inj goesOn).symm
  · intro expired
    cases call with
    | delay ticks => exact stays _ (Option.some.inj goesOn).symm
    | _ =>
        simp only [PassState.resume, expired, if_true] at goesOn
        exact stays _ (Option.some.inj goesOn).symm

inductive BlocksNow (s : HistoryState) (caller : Addr) (call : Call) :
    PassAction → Option FirstBlock → Prop where
  | new (outside : s.passes.calls caller = none) :
      BlocksNow s caller call (.call call) (some ⟨rtosGetTick s.passes.kernel, s.moment⟩)
  | again {list : WaitId} (inside : s.passes.calls caller = some call)
      (inTime : s.passes.kernel.blockWakeStatus caller ≠ .errTimeout)
      (waits : call.list = some list) :
      BlocksNow s caller call .resume (s.first caller)

theorem historyStep_blocked (holds : PassCoherent s.passes) (free : action.mutexFree = true)
    (taken : historyStep s action = some after) (inCall : after.passes.calls t = some call)
    (blocked : after.passes.kernel.state t = .blocked) :
    (s.passes.kernel.state t = .blocked ∧ s.passes.calls t = some call ∧
      after.first t = s.first t ∧
      after.passes.kernel.wakeTime t = s.passes.kernel.wakeTime t) ∨
    (s.passes.kernel.currentTcb = some t ∧ canCall s.passes.kernel = true ∧
      PassEffect s.passes.kernel t call .blocks after.passes.kernel ∧
      BlocksNow s t call action (after.first t)) := by
  obtain ⟨passes, stepped, rfl⟩ := Option.map_eq_some_iff.mp taken
  change passes.calls t = some call at inCall
  have inside := inCall
  rcases passStep_cases stepped with ⟨choice, later, rfl, noCall, moved, rfl⟩ |
    ⟨self, other, status, isCurrent, can, wasIn, ends, rfl⟩ |
    ⟨self, other, outcome, result, isCurrent, can, course, returned, rfl⟩
  · obtain ⟨onward, _⟩ := step_onward holds.system noCall moved
    simp only [PassState.settle] at inside
    split at inside
    · rename_i live
      rcases onward.task t live with ⟨old, unmoved⟩ | ⟨_, ready⟩
      · exact Or.inl ⟨unmoved.asleep blocked, inside, after_first_some inside inCall,
          step_wakeTime holds.system noCall moved old⟩
      · have clash := ready.symm.trans blocked
        cases clash
    · cases inside
  · have different : t ≠ self := by
      rintro rfl
      exact (canCall_some can isCurrent).2 blocked
    simp only [PassState.finish, Function.update_of_ne different] at inside
    exact Or.inl ⟨blocked, inside, after_first_some inside inCall, rfl⟩
  · have plain := holds.isPlain free course
    have effect := callPass_effect isCurrent plain returned
    by_cases moves : outcome = .blocks ∧ t = self
    · obtain ⟨rfl, rfl⟩ := moves
      simp only [PassState.passed, Function.update_self, if_true] at inside
      cases inside
      refine Or.inr ⟨isCurrent, can, effect, ?_⟩
      rcases course with ⟨rfl, outside⟩ | ⟨rfl, wasIn⟩
      · rw [after_first_none outside inCall]
        exact .new outside
      · rw [after_first_some wasIn inCall]
        obtain ⟨noDelay, inTime⟩ := resume_inTime isCurrent wasIn stepped (by rw [inCall]; simp)
        rcases callPass_blocks isCurrent plain returned with ⟨list, waits⟩ | ⟨ticks, isDelay⟩
        · exact .again wasIn inTime waits
        · exact absurd isDelay (noDelay ticks)
    · have headBlocked : ∀ list first, s.passes.kernel.waitHead list = some first →
          s.passes.kernel.state first = .blocked :=
        fun list first headAt => (holds.system.head_sleeps headAt).2.1
      have unmoved := effect.unmoved headBlocked (not_and_or.mp moves)
      have wasBlocked := unmoved.asleep blocked
      have different : t ≠ self := by
        rintro rfl
        exact (canCall_some can isCurrent).2 wasBlocked
      simp only [PassState.passed, Function.update_of_ne different] at inside
      refine Or.inl ⟨wasBlocked, inside, after_first_some inside inCall, ?_⟩
      exact (effect.wakeTime t).trans (if_neg moves)

/-! ### Runs -/

/-- The first block of every call in progress is on record, and it is past. -/
structure HistoryCoherent (s : HistoryState) : Prop where
  passes : PassCoherent s.passes
  known : ∀ t call, s.passes.calls t = some call → ∃ first, s.first t = some first
  past : ∀ t first, s.first t = some first → first.moment < s.moment

theorem HistoryStart.historyCoherent (begins : HistoryStart s) : HistoryCoherent s := by
  refine ⟨begins.passes.passCoherent, ?_, ?_⟩
  · intro t call inside
    rw [begins.passes.calls] at inside
    cases inside
  · intro t first isFirst
    rw [begins.first] at isFirst
    cases isFirst

theorem historyStep_keeps (holds : HistoryCoherent s) (free : action.mutexFree = true)
    (taken : historyStep s action = some after) : HistoryCoherent after := by
  obtain ⟨passes, stepped, rfl⟩ := Option.map_eq_some_iff.mp taken
  refine ⟨(passStep_keeps holds.passes free stepped).1, ?_, ?_⟩
  · intro t call inside
    cases before : s.passes.calls t with
    | none => exact ⟨_, after_first_none before inside⟩
    | some other =>
        obtain ⟨first, isFirst⟩ := holds.known t other before
        exact ⟨first, (after_first_some before inside).trans isFirst⟩
  · intro t first isFirst
    change first.moment < s.moment + 1
    simp only [HistoryState.after] at isFirst
    split at isFirst
    · cases isFirst
    · cases isFirst
      exact Nat.lt_succ_self _
    · exact Nat.lt_succ_of_lt (holds.past t first isFirst)

theorem historyStep_deadline (holds : HistoryCoherent s) (kept : DeadlineKept s)
    (permitted : RetriesAtOnce s action) (taken : historyStep s action = some after) :
    DeadlineKept after := by
  intro t call first inCall blocked isFirst positive
  rcases historyStep_blocked holds.passes permitted.1 taken inCall blocked with
    ⟨wasBlocked, wasIn, sameFirst, sameTime⟩ | ⟨isCurrent, can, effect, now⟩
  · rw [sameTime]
    rw [sameFirst] at isFirst
    exact kept t call first wasIn wasBlocked isFirst positive
  · rw [effect.wakeTime, if_pos ⟨rfl, rfl⟩, wakeTimeFor, if_neg (Nat.ne_of_gt positive)]
    have bound := Nat.mod_le (rtosGetTick s.passes.kernel + call.timeoutTicks) uint32Size
    suffices rtosGetTick s.passes.kernel ≤ first.tick by omega
    generalize isRecord : after.first t = record at now isFirst
    cases now with
    | new outside =>
        cases isFirst
        exact le_rfl
    | again wasIn inTime waits =>
        exact permitted.2 rfl t call first ⟨isCurrent, can, wasIn, isFirst, inTime,
          _, waits, (effect.blocks_iff waits).mp rfl⟩ positive

theorem BlocksAgain.taken (again : BlocksAgain s self call first) (holds : HistoryCoherent s) :
    ∃ result, callPass s.passes.kernel self call = some (.blocks, result) ∧
      historyStep s .resume = some (s.after (s.passes.passed self call .blocks result)) ∧
      (s.after (s.passes.passed self call .blocks result)).passes.calls self = some call ∧
      (s.after (s.passes.passed self call .blocks result)).first self = some first := by
  obtain ⟨list, waits, empty⟩ := again.exhausted
  obtain ⟨notIdle, awake⟩ := canCall_some again.able again.current
  have plain := holds.passes.plain self call again.inCall
  have keepsBucket : KeepsBucket s.passes.kernel self call := by
    cases call with
    | unlock m => cases plain
    | _ => trivial
  obtain ⟨outcome, result, returned, _⟩ := callPass_keeps holds.passes.system.coherent
    again.current notIdle awake call fun _ => keepsBucket
  change callPass s.passes.kernel self call = _ at returned
  have effect := callPass_effect again.current plain returned
  have blocks := (effect.blocks_iff waits).mpr empty
  subst blocks
  have goesOn : s.passes.resume self call =
      some (s.passes.passed self call .blocks result) := by
    cases call with
    | delay ticks => cases waits
    | _ =>
        simp only [PassState.resume, if_neg again.inTime, PassState.pass]
        rw [returned]
        rfl
  have inCall : (s.passes.passed self call .blocks result).calls self = some call := by
    simp [PassState.passed]
  refine ⟨result, returned, ?_, inCall, (after_first_some again.inCall inCall).trans again.known⟩
  simp [historyStep, passStep, again.current, again.inCall, again.able, goesOn]

/-- In a call that blocks again at a later tick the deadline has moved. -/
theorem BlocksAgain.extends (again : BlocksAgain s self call first) (holds : HistoryCoherent s)
    (positive : 0 < call.timeoutTicks) (late : first.tick < rtosGetTick s.passes.kernel)
    (fits : rtosGetTick s.passes.kernel + call.timeoutTicks < uint32Size) :
    ∃ after, historyStep s .resume = some after ∧ ¬ DeadlineKept after := by
  obtain ⟨result, returned, taken, inCall, isFirst⟩ := again.taken holds
  have effect := callPass_effect again.current (holds.passes.plain self call again.inCall) returned
  refine ⟨_, taken, fun kept => ?_⟩
  have blocked : result.state self = .blocked := by
    cases effect with
    | blocks none exhausted core => simp [core, blockState, blockFields]
  have bound := kept self call first inCall blocked isFirst positive
  change result.wakeTime self ≤ _ at bound
  rw [effect.wakeTime, if_pos ⟨rfl, rfl⟩, wakeTimeFor, if_neg (Nat.ne_of_gt positive),
    Nat.mod_eq_of_lt fits] at bound
  omega

theorem Reachable.historyCoherent {allowed : HistoryState → PassAction → Prop}
    (free : ∀ s action, allowed s action → action.mutexFree = true)
    (reached : Reachable HistoryStart historyStep allowed s) : HistoryCoherent s :=
  Transition.Reachable.invariant HistoryCoherent (fun _ begins => begins.historyCoherent)
    (fun s action _ holds permitted taken =>
      historyStep_keeps holds (free s action permitted) taken) reached

/-- Deadlines are kept in every run in which no call blocks again at a later tick, and
away from the wraparound every such block breaks one. -/
theorem deadlineKept_of_reachable (s : HistoryState) :
    (Reachable HistoryStart historyStep RetriesAtOnce s → DeadlineKept s) ∧
    (Reachable HistoryStart historyStep (fun _ action => action.mutexFree = true) s →
      ∀ caller call first, BlocksAgain s caller call first → 0 < call.timeoutTicks →
        first.tick < rtosGetTick s.passes.kernel →
        rtosGetTick s.passes.kernel + call.timeoutTicks < uint32Size →
        ∃ after, historyStep s .resume = some after ∧ ¬ DeadlineKept after) := by
  constructor
  · intro reached
    refine (Transition.Reachable.invariant (fun s => HistoryCoherent s ∧ DeadlineKept s) ?_ ?_
      reached).2
    · intro s begins
      refine ⟨begins.historyCoherent, ?_⟩
      intro t call first inside
      rw [begins.passes.calls] at inside
      cases inside
    · intro s action after holds permitted taken
      exact ⟨historyStep_keeps holds.1 permitted.1 taken,
        historyStep_deadline holds.1 holds.2 permitted taken⟩
  · intro reached caller call first again positive late fits
    have holds := Reachable.historyCoherent (fun _ _ free => free) reached
    exact again.extends holds positive late fits

def startedHistory : HistoryState where
  passes := startedPasses
  moment := 0
  first := fun _ => none

theorem historyStart_startedHistory : HistoryStart startedHistory :=
  ⟨passStart_startedPasses, rfl⟩

def loseTheUnit : List PassAction :=
  [.other (.create (some 0) 100 256 (some 1) (some 0)),
    .other (.create (some 0) 100 256 (some 2) (some 0)),
    .other .getNext, .call (.wait 0 5), .other .getNext, .call (.post 0), .other .getNext,
    .call (.wait 0 0)]

theorem deadlineKept_after_retry :
    ∃ s, Reachable HistoryStart historyStep RetriesAtOnce s ∧
      s.passes.kernel.state 1 = .blocked ∧ s.passes.kernel.wakeTime 1 = 5 ∧
      rtosGetTick s.passes.kernel = 1 ∧ DeadlineKept s := by
  obtain ⟨final, reached, found⟩ :=
    @exists_reachable_of_run HistoryState PassAction HistoryStart historyStep RetriesAtOnce
      (fun s a => a.mutexFree && (s.passes.kernel.currentTcb.bind s.first).all fun first =>
        decide (rtosGetTick s.passes.kernel ≤ first.tick))
      (fun s => decide (s.passes.kernel.state 1 = .blocked ∧ s.passes.kernel.wakeTime 1 = 5 ∧
        rtosGetTick s.passes.kernel = 1))
      (by
        intro s action checked
        rw [Bool.and_eq_true] at checked
        refine ⟨checked.1, fun _ caller call first again _ => ?_⟩
        have bound := checked.2
        rw [again.current, Option.bind_some, again.known] at bound
        simpa using bound)
      (loseTheUnit ++ [.other .getNext, .resume, .other .getNext, .other .sysTick])
      startedHistory historyStart_startedHistory (by decide +kernel)
  obtain ⟨blocked, wakeTime, tick⟩ := of_decide_eq_true found
  exact ⟨final, reached, blocked, wakeTime, tick, (deadlineKept_of_reachable final).1 reached⟩

/-- One tick passes before the first task finds nothing. -/
theorem deadlineKept_fails :
    ∃ s, Reachable HistoryStart historyStep (fun _ a => a.mutexFree = true) s ∧
      rtosGetTick s.passes.kernel = 1 ∧ ¬ DeadlineKept s := by
  obtain ⟨final, reached, found⟩ :=
    @exists_reachable_of_run HistoryState PassAction HistoryStart historyStep
      (fun _ a => a.mutexFree = true) (fun _ a => a.mutexFree)
      (fun s => decide (s.passes.kernel.state 1 = .blocked ∧ s.passes.kernel.wakeTime 1 = 6 ∧
          rtosGetTick s.passes.kernel = 1) &&
        (s.first 1).any (fun (first : FirstBlock) => decide (first.tick = 0)) &&
        (s.passes.calls 1).any fun (call : Call) => decide (call.timeoutTicks = 5))
      (fun _ _ checked => checked)
      (loseTheUnit ++ [.other .sysTick, .other .getNext, .resume]) startedHistory
      historyStart_startedHistory (by decide +kernel)
  simp only [Bool.and_eq_true] at found
  obtain ⟨blocked, wakeTime, tick⟩ := of_decide_eq_true found.1.1
  obtain ⟨first, isFirst, began⟩ := (Option.any_eq_true _ _).mp found.1.2
  obtain ⟨call, inCall, timeout⟩ := (Option.any_eq_true _ _).mp found.2
  refine ⟨final, reached, tick, fun kept => ?_⟩
  rw [decide_eq_true_eq] at began timeout
  have bound := kept 1 call first inCall blocked isFirst (by omega)
  omega

end MicrokernelRtos
