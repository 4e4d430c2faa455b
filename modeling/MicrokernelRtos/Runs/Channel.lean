/-
The message queue is a bounded FIFO channel, over all interleavings of the
regions.

The log says what has been sent and received.  Both indices and the count move
only inside a region that returns `RTOS_OK`, so that a call that blocks, is woken
and blocks again, or times out, leaves the queue as it was.
-/

import MicrokernelRtos.Library.RingBuffer
import MicrokernelRtos.Runs.Regions

namespace MicrokernelRtos

open Transition

variable {kernel result : Kernel} {machine after : Machine} {action : RegionAction}
variable {self : Addr} {call : Call} {q : Nat} {queue : MsgQueue} {msg : Nat → UInt8}

/-! ### Slots -/

theorem copyOut_copyIn_same (buffer source : Nat → UInt8) (offset size : Nat) :
    copyOut (copyIn buffer offset source size) offset size = (List.range size).map source := by
  refine List.map_congr_left fun position member => ?_
  have inside := List.mem_range.mp member
  rw [copyIn, if_pos (by omega), Nat.add_sub_cancel_left]

theorem copyOut_copyIn_apart (buffer source : Nat → UInt8) {offset other size : Nat}
    (apart : other + size ≤ offset ∨ offset + size ≤ other) :
    copyOut (copyIn buffer offset source size) other size = copyOut buffer other size := by
  refine List.map_congr_left fun position member => ?_
  have inside := List.mem_range.mp member
  rw [copyIn, if_neg (by omega)]

theorem slots_apart {left right : Nat} (different : left ≠ right) (size : Nat) :
    left * size + size ≤ right * size ∨ right * size + size ≤ left * size := by
  rcases Nat.lt_or_gt_of_ne different with below | above
  · left
    rw [← Nat.succ_mul]
    exact Nat.mul_le_mul_right size below
  · right
    rw [← Nat.succ_mul]
    exact Nat.mul_le_mul_right size above

/-- The storage the application gave to `msg_queue_init` exists. -/
def StorageExists (queue : MsgQueue) : Prop := queue.depth * queue.msgSize < uint32Size

def slotBytes (queue : MsgQueue) (index : Nat) : List UInt8 :=
  copyOut queue.buffer (index * queue.msgSize) queue.msgSize

/-- The messages in the queue, the oldest first: the slots `head`, `head + 1` and
so on modulo `depth`. -/
def queued (queue : MsgQueue) : List (List UInt8) :=
  RingBuffer.contents (slotBytes queue) queue.depth queue.head queue.count

structure QueueShape (queue : MsgQueue) : Prop where
  size : 0 < queue.msgSize
  inside : queue.head < queue.depth
  bounded : queue.count ≤ queue.depth
  tail : queue.tail = (queue.head + queue.count) % queue.depth

theorem StorageExists.depth_lt (storage : StorageExists queue) (shape : QueueShape queue) :
    queue.depth < uint32Size :=
  Nat.lt_of_le_of_lt (Nat.le_mul_of_pos_right _ shape.size) storage

theorem slotOffset_eq (storage : StorageExists queue) {index : Nat}
    (inside : index < queue.depth) : slotOffset queue index = index * queue.msgSize :=
  Nat.mod_eq_of_lt
    (Nat.lt_of_le_of_lt (Nat.mul_le_mul_right _ (Nat.le_of_lt inside)) storage)

theorem tail_lt (shape : QueueShape queue) : queue.tail < queue.depth := by
  rw [shape.tail]
  exact Nat.mod_lt _ (Nat.lt_of_le_of_lt (Nat.zero_le _) shape.inside)

theorem nextIndex_eq (storage : StorageExists queue) (shape : QueueShape queue) {index : Nat}
    (inside : index < queue.depth) :
    ((index + 1) % uint32Size) % queue.depth = (index + 1) % queue.depth := by
  have small := storage.depth_lt shape
  rw [Nat.mod_eq_of_lt (show index + 1 < uint32Size by omega)]

theorem slotBytes_push (storage : StorageExists queue) (shape : QueueShape queue) (index : Nat) :
    slotBytes (pushMessage queue msg) index =
      if index = queue.tail then (List.range queue.msgSize).map msg else slotBytes queue index := by
  unfold slotBytes
  simp only [pushMessage, slotOffset_eq storage (tail_lt shape)]
  by_cases same : index = queue.tail
  · rw [if_pos same, same]
    exact copyOut_copyIn_same queue.buffer msg _ _
  · rw [if_neg same]
    exact copyOut_copyIn_apart queue.buffer msg (slots_apart same _)

theorem pushMessage_spec (storage : StorageExists queue) (shape : QueueShape queue)
    (room : queue.count < queue.depth) :
    QueueShape (pushMessage queue msg) ∧
      queued (pushMessage queue msg) = queued queue ++ [(List.range queue.msgSize).map msg] := by
  refine ⟨⟨shape.size, shape.inside, room, ?_⟩, ?_⟩
  · change ((queue.tail + 1) % uint32Size) % queue.depth =
      (queue.head + (queue.count + 1)) % queue.depth
    rw [nextIndex_eq storage shape (tail_lt shape), shape.tail, RingBuffer.free_push]
  · have pushed : queued (pushMessage queue msg) = queued queue ++
        [slotBytes (pushMessage queue msg) ((queue.head + queue.count) % queue.depth)] :=
      RingBuffer.contents_push room fun index _ notFree => by
        rw [slotBytes_push storage shape, if_neg (by rw [shape.tail]; exact notFree)]
    rw [pushed, slotBytes_push storage shape, if_pos shape.tail.symm]

theorem popMessage_spec (storage : StorageExists queue) (shape : QueueShape queue)
    (someMessage : 0 < queue.count) :
    QueueShape (popMessage queue) ∧
      queued queue = copyOut queue.buffer (slotOffset queue queue.head) queue.msgSize ::
        queued (popMessage queue) := by
  have next := nextIndex_eq storage shape shape.inside
  refine ⟨⟨shape.size, ?_, ?_, ?_⟩, ?_⟩
  · exact Nat.mod_lt _ (Nat.lt_of_le_of_lt (Nat.zero_le _) shape.inside)
  · exact Nat.le_trans (Nat.sub_le _ _) shape.bounded
  · change queue.tail =
      (((queue.head + 1) % uint32Size) % queue.depth + (queue.count - 1)) % queue.depth
    rw [next, RingBuffer.free_pop someMessage, shape.tail]
  · have rest : queued (popMessage queue) = RingBuffer.contents (slotBytes queue) queue.depth
        ((queue.head + 1) % queue.depth) (queue.count - 1) := by
      rw [← next]
      rfl
    rw [rest, queued, RingBuffer.contents_pop someMessage, Nat.mod_eq_of_lt shape.inside,
      slotOffset_eq storage shape.inside]
    rfl

/-! ### What has been sent and received -/

def Event.sentTo (event : Event) (q : Nat) : Option (Nat → UInt8) :=
  match event.call, event.status with
  | .send target msg _, .ok => if target = q then some msg else none
  | _, _ => none

def Event.receivedFrom (event : Event) (q : Nat) : Option (List UInt8) :=
  match event.call, event.status with
  | .recv target _, .ok => if target = q then some event.out else none
  | _, _ => none

def Machine.sent (machine : Machine) (q : Nat) : List (List UInt8) :=
  (machine.log.reverse.filterMap fun event => event.sentTo q).map fun msg =>
    (List.range (machine.kernel.msgQueue q).msgSize).map msg

def Machine.received (machine : Machine) (q : Nat) : List (List UInt8) :=
  machine.log.reverse.filterMap fun event => event.receivedFrom q

def Event.Silent (event : Event) (q : Nat) : Prop :=
  event.sentTo q = none ∧ event.receivedFrom q = none

theorem silent_of_status {event : Event} (failed : event.status ≠ .ok) : event.Silent q := by
  unfold Event.Silent Event.sentTo Event.receivedFrom
  constructor
  · split
    · rename_i isOk
      exact absurd isOk failed
    · rfl
  · split
    · rename_i isOk
      exact absurd isOk failed
    · rfl

theorem silent_of_call {event : Event} (notSend : ∀ msg ticks, event.call ≠ .send q msg ticks)
    (notRecv : ∀ ticks, event.call ≠ .recv q ticks) : event.Silent q := by
  unfold Event.Silent Event.sentTo Event.receivedFrom
  constructor
  · split
    · rename_i target msg ticks isCall _
      rw [if_neg]
      rintro rfl
      exact notSend msg ticks isCall
    · rfl
  · split
    · rename_i target ticks isCall _
      rw [if_neg]
      rintro rfl
      exact notRecv ticks isCall
    · rfl

/-- What one step does to a queue: a send puts its message in and returns
`RTOS_OK`, a receive takes one out and returns it with `RTOS_OK`, and every other
step, whatever it returns, leaves the queue as it is. -/
inductive QueueStep (q : Nat) (before after : Machine) : Prop where
  | sends (self : Addr) (msg : Nat → UInt8) (ticks : Nat)
      (place : before.pc self = .entering (.send q msg ticks))
      (room : (before.kernel.msgQueue q).count < (before.kernel.msgQueue q).depth)
      (pushed : after.kernel.msgQueue q = pushMessage (before.kernel.msgQueue q) msg)
      (logged : after.log =
        { task := self, call := .send q msg ticks, status := .ok, out := [] } :: before.log)
  | receives (self : Addr) (ticks : Nat) (place : before.pc self = .entering (.recv q ticks))
      (someMessage : 0 < (before.kernel.msgQueue q).count)
      (popped : after.kernel.msgQueue q = popMessage (before.kernel.msgQueue q))
      (logged : after.log =
        { task := self, call := .recv q ticks, status := .ok,
          out := copyOut (before.kernel.msgQueue q).buffer
            (slotOffset (before.kernel.msgQueue q) (before.kernel.msgQueue q).head)
            (before.kernel.msgQueue q).msgSize } :: before.log)
  | returns (event : Event) (silent : event.Silent q)
      (kept : after.kernel.msgQueue q = before.kernel.msgQueue q)
      (logged : after.log = event :: before.log)
  | goesOn (kept : after.kernel.msgQueue q = before.kernel.msgQueue q)
      (logged : after.log = before.log)

/-! ### Steps -/

theorem background_msgQueue (background : Background kernel action result) :
    result.msgQueue = kernel.msgQueue := by
  cases background with
  | refused action => rfl
  | tick ticked =>
      obtain ⟨woken, counter, wake, rfl⟩ := sysTickHandler_cases ticked
      change woken.toCore.msgQueue = _
      rw [(wakeLoop_wakes wake).fields]
      rfl
  | @select sel _ selected =>
      obtain ⟨state, counter, fields⟩ := select_core kernel sel
      rw [(schedulerGetNext_onlyRings selected).core, fields]
  | dispatch sel live awake =>
      obtain ⟨state, counter, fields⟩ := select_core kernel sel
      rw [fields]

theorem wakeHead_msgQueue {list : WaitId} (returned : wakeHead kernel list = some result) :
    result.msgQueue = kernel.msgQueue := by
  rcases wakeHead_core returned with core | ⟨first, _, core⟩
  · rw [core]
  · rw [core]
    rfl

theorem enqueue_msgQueue {list : WaitId}
    (returned : tcbEnqueueTail kernel list self = some result) :
    result.msgQueue = kernel.msgQueue := by
  rw [(tcbEnqueueTail_onlyWaits returned).core]

theorem lockRegion_msgQueue {m : Nat} {outcome : Outcome}
    (returned : mutexLockRegion kernel m self = some (outcome, result)) :
    result.msgQueue = kernel.msgQueue := by
  rcases mutexLockRegion_cases returned with ⟨_, _, _, rfl⟩ | ⟨_, _, rfl⟩ |
    ⟨_, _, _, joined, enqueued, boost⟩
  · rfl
  · rfl
  · rw [lockJoin_core enqueued boost]
    rfl

theorem unlockRegion_msgQueue {m : Nat}
    (returned : mutexUnlockRegion kernel m self = some result) :
    result.msgQueue = kernel.msgQueue := by
  obtain ⟨restored, next, popped, restore, pop, ending⟩ := mutexUnlockRegion_cases returned
  have poppedQueue : popped.msgQueue = kernel.msgQueue := by
    rw [(waitPopHighest_onlyWaits pop).core, (changePriority_onlyRings restore).core]
    rfl
  rcases ending with ⟨rfl, rfl⟩ | ⟨heir, woken, rfl, wake, rfl⟩
  · exact poppedQueue
  · change woken.msgQueue = _
    rw [(makeReady_onlyRings wake).core]
    exact poppedQueue

theorem callRegion_msgQueue {outcome : Outcome}
    (returned : callRegion kernel self call = some (outcome, result))
    (notSend : ∀ q msg ticks, call ≠ .send q msg ticks)
    (notRecv : ∀ q ticks, call ≠ .recv q ticks) : result.msgQueue = kernel.msgQueue := by
  cases call with
  | lock m ticks => exact lockRegion_msgQueue returned
  | unlock m =>
      obtain ⟨unlocked, region, equal⟩ := Option.map_eq_some_iff.mp returned
      cases equal
      exact unlockRegion_msgQueue region
  | wait sem ticks =>
      simp only [callRegion, semaphoreWaitRegion] at returned
      split at returned
      · cases returned
        rfl
      · obtain ⟨joined, enqueued, equal⟩ := Option.map_eq_some_iff.mp returned
        cases equal
        exact enqueue_msgQueue enqueued
  | post sem =>
      simp only [callRegion, semaphorePostRegion_eq] at returned
      split at returned
      · cases returned
        rfl
      · rw [Option.map_map] at returned
        obtain ⟨woken, wake, equal⟩ := Option.map_eq_some_iff.mp returned
        cases equal
        have kept := wakeHead_msgQueue wake
        exact kept
  | send q msg ticks => exact absurd rfl (notSend q msg ticks)
  | recv q ticks => exact absurd rfl (notRecv q ticks)
  | delay ticks =>
      cases returned
      rfl

theorem setQueue_apply (kernel : Kernel) (target : Nat) (value : MsgQueue) (q : Nat) :
    (setQueue kernel target value).msgQueue q =
      if q = target then value else kernel.msgQueue q :=
  Function.update_apply _ _ _ _

theorem sendRegion_step {target ticks : Nat} {outcome : Outcome}
    (place : machine.pc self = .entering (.send target msg ticks))
    (returned : msgQueueSendRegion machine.kernel target msg self = some (outcome, result)) :
    QueueStep q machine (machine.leave self (.send target msg ticks) outcome result) := by
  unfold msgQueueSendRegion at returned
  split at returned
  · rename_i room
    obtain ⟨woken, wake, equal⟩ := Option.map_eq_some_iff.mp returned
    cases equal
    have written := congrFun (wakeHead_msgQueue wake) q
    rw [setQueue_apply] at written
    by_cases same : q = target
    · subst q
      rw [if_pos rfl] at written
      exact .sends self msg ticks place room written rfl
    · rw [if_neg same] at written
      refine .returns _ (silent_of_call ?_ ?_) written rfl
      · rintro _ _ isSend
        cases isSend
        exact same rfl
      · rintro _ isRecv
        cases isRecv
  · obtain ⟨joined, enqueued, equal⟩ := Option.map_eq_some_iff.mp returned
    cases equal
    exact .goesOn (congrFun (enqueue_msgQueue enqueued) q) rfl

theorem recvRegion_step {target ticks : Nat} {outcome : Outcome}
    (place : machine.pc self = .entering (.recv target ticks))
    (returned : msgQueueRecvRegion machine.kernel target self = some (outcome, result)) :
    QueueStep q machine (machine.leave self (.recv target ticks) outcome result) := by
  unfold msgQueueRecvRegion at returned
  split at returned
  · rename_i someMessage
    obtain ⟨woken, wake, equal⟩ := Option.map_eq_some_iff.mp returned
    cases equal
    have written := congrFun (wakeHead_msgQueue wake) q
    rw [setQueue_apply] at written
    by_cases same : q = target
    · subst q
      rw [if_pos rfl] at written
      exact .receives self ticks place someMessage written rfl
    · rw [if_neg same] at written
      refine .returns _ (silent_of_call ?_ ?_) written rfl
      · rintro _ _ isSend
        cases isSend
      · rintro _ isRecv
        cases isRecv
        exact same rfl
  · obtain ⟨joined, enqueued, equal⟩ := Option.map_eq_some_iff.mp returned
    cases equal
    exact .goesOn (congrFun (enqueue_msgQueue enqueued) q) rfl

theorem leave_step {outcome : Outcome} (kept : result.msgQueue = machine.kernel.msgQueue)
    (notSend : ∀ q msg ticks, call ≠ .send q msg ticks)
    (notRecv : ∀ q ticks, call ≠ .recv q ticks) :
    QueueStep q machine (machine.leave self call outcome result) := by
  cases outcome with
  | returns status out =>
      exact .returns _ (silent_of_call (notSend q) (notRecv q)) (congrFun kept q) rfl
  | blocks => exact .goesOn (congrFun kept q) rfl

theorem advance_queueStep (moves : machine.advance self = some after) :
    QueueStep q machine after := by
  rcases advance_cases moves with ⟨call, outcome, kernel, place, region, rfl⟩ |
    ⟨call, _, rfl⟩ | ⟨call, kernel, _, region, rfl⟩ | ⟨call, _, _, rfl⟩
  · cases call with
    | send target msg ticks => exact sendRegion_step place region
    | recv target ticks => exact recvRegion_step place region
    | _ =>
        exact leave_step (callRegion_msgQueue region (by simp) (by simp)) (by simp) (by simp)
  · exact .goesOn rfl rfl
  · refine .goesOn ?_ rfl
    change kernel.msgQueue q = _
    rw [(blockRegion_onlyRings region).core]
    rfl
  · rcases wakeUp_cases machine self call with ⟨ticks, status, rfl, ends⟩ | ⟨_, ends⟩ |
      ⟨_, ends⟩
    · rw [ends]
      exact .returns _ (silent_of_call (by simp) (by simp)) rfl rfl
    · rw [ends]
      exact .returns _ (silent_of_status (by simp)) rfl rfl
    · rw [ends]
      exact .goesOn rfl rfl

theorem enter_queueStep (machine : Machine) (self : Addr) (call : Call) :
    QueueStep q machine (machine.enter self call) := by
  unfold Machine.enter
  cases call with
  | unlock m =>
      split
      · exact .returns _ (silent_of_call (by simp) (by simp)) rfl rfl
      · exact .goesOn rfl rfl
  | delay ticks =>
      split
      · exact .returns _ (silent_of_call (by simp) (by simp)) rfl rfl
      · exact .goesOn rfl rfl
  | _ => exact .goesOn rfl rfl

theorem regionStep_queueStep (taken : regionStep machine action = some after) :
    QueueStep q machine after := by
  rcases regionStep_cases taken with ⟨kernel, background, rfl⟩ |
    ⟨tcb, priority, added, _, _, _, addition, rfl⟩ | ⟨tcb, kernel, _, _, _, deletion, rfl⟩ |
    ⟨self, call, _, _, rfl⟩ | ⟨self, _, _, moves⟩
  · exact .goesOn (congrFun (background_msgQueue background) q) rfl
  · refine .goesOn ?_ rfl
    change added.msgQueue q = _
    rw [(schedulerAddTask_onlyRings (Function.update_self _ _ _) addition).core]
    rfl
  · refine .goesOn ?_ rfl
    change kernel.msgQueue q = _
    rcases taskDelete_cases deletion with ⟨failed, _⟩ |
      ⟨t, detached, removed, _, _, _, _, detachment, removal, rfl⟩
    · exact absurd rfl failed
    · change removed.msgQueue q = _
      rw [(schedulerRemoveTask_onlyRings removal).core]
      obtain ⟨_, _, _, core, _⟩ := detachIfBlocked_core detachment
      rw [core]
  · exact enter_queueStep machine self call
  · exact advance_queueStep moves

/-! ### Runs -/

/-- The queue is a bounded FIFO channel: what has been received is the beginning
of what has been sent, and the rest is in the slots. -/
structure IsChannel (machine : Machine) (q : Nat) : Prop where
  order : machine.sent q = machine.received q ++ queued (machine.kernel.msgQueue q)
  length : (queued (machine.kernel.msgQueue q)).length = (machine.kernel.msgQueue q).count
  bounded : (machine.kernel.msgQueue q).count ≤ (machine.kernel.msgQueue q).depth
  tail : (machine.kernel.msgQueue q).tail =
    ((machine.kernel.msgQueue q).head + (machine.kernel.msgQueue q).count) %
      (machine.kernel.msgQueue q).depth

structure ChannelInvariant (machine : Machine) (q : Nat) : Prop where
  shape : QueueShape (machine.kernel.msgQueue q)
  order : machine.sent q = machine.received q ++ queued (machine.kernel.msgQueue q)

theorem received_cons {event : Event} (logged : after.log = event :: machine.log) :
    after.received q = machine.received q ++ (event.receivedFrom q).toList := by
  unfold Machine.received
  rw [logged, List.reverse_cons, List.filterMap_append]
  cases found : event.receivedFrom q <;> simp [found]

theorem sent_cons {event : Event} (logged : after.log = event :: machine.log)
    (size : (after.kernel.msgQueue q).msgSize = (machine.kernel.msgQueue q).msgSize) :
    after.sent q = machine.sent q ++ ((event.sentTo q).toList.map fun msg =>
      (List.range (machine.kernel.msgQueue q).msgSize).map msg) := by
  unfold Machine.sent
  rw [logged, size, List.reverse_cons, List.filterMap_append, List.map_append]
  cases found : event.sentTo q <;> simp [found]

theorem channelInvariant_step (storage : StorageExists (machine.kernel.msgQueue q))
    (holds : ChannelInvariant machine q) (step : QueueStep q machine after) :
    ChannelInvariant after q := by
  cases step with
  | sends self msg ticks place room pushed logged =>
      obtain ⟨shape, appended⟩ := @pushMessage_spec _ msg storage holds.shape room
      have sentIs := sent_cons (q := q) logged (by rw [pushed]; rfl)
      have receivedIs := received_cons (q := q) logged
      simp only [Event.sentTo, Event.receivedFrom, if_true, Option.toList, List.map_cons,
        List.map_nil, List.append_nil] at sentIs receivedIs
      refine ⟨by rw [pushed]; exact shape, ?_⟩
      rw [sentIs, receivedIs, pushed, appended, holds.order, List.append_assoc]
  | receives self ticks place someMessage popped logged =>
      obtain ⟨shape, dropped⟩ := popMessage_spec storage holds.shape someMessage
      have sentIs := sent_cons (q := q) logged (by rw [popped]; rfl)
      have receivedIs := received_cons (q := q) logged
      simp only [Event.sentTo, Event.receivedFrom, if_true, Option.toList, List.map_nil,
        List.append_nil] at sentIs receivedIs
      refine ⟨by rw [popped]; exact shape, ?_⟩
      rw [sentIs, receivedIs, popped, holds.order, dropped, List.append_assoc,
        List.singleton_append]
  | returns event silent kept logged =>
      have sentIs := sent_cons (q := q) logged (by rw [kept])
      have receivedIs := received_cons (q := q) logged
      rw [silent.1] at sentIs
      rw [silent.2] at receivedIs
      simp only [Option.toList, List.map_nil, List.append_nil] at sentIs receivedIs
      exact ⟨by rw [kept]; exact holds.shape, by rw [sentIs, receivedIs, kept, holds.order]⟩
  | goesOn kept logged =>
      refine ⟨by rw [kept]; exact holds.shape, ?_⟩
      unfold Machine.sent Machine.received
      rw [logged, kept]
      exact holds.order

theorem QueueStep.storage (step : QueueStep q machine after) :
    StorageExists (after.kernel.msgQueue q) ↔ StorageExists (machine.kernel.msgQueue q) := by
  cases step with
  | sends self msg ticks place room pushed logged => rw [pushed]; rfl
  | receives self ticks place someMessage popped logged => rw [popped]; rfl
  | returns event silent kept logged => rw [kept]
  | goesOn kept logged => rw [kept]

theorem PoweredUp.channelInvariant (powered : PoweredUp machine) (q : Nat) :
    ChannelInvariant machine q := by
  obtain ⟨start, idle, initialised, _, core, _⟩ := powered.booted.spec
  have queueIs : machine.kernel.msgQueue q = start.msgQueue q := by
    rw [core]
    rfl
  obtain ⟨empty, headIs, tailIs, hasSlots, hasSize⟩ := initialised.msgQueue_eq q
  refine ⟨⟨?_, ?_, ?_, ?_⟩, ?_⟩
  · rw [queueIs]
    exact hasSize
  · rw [queueIs, headIs]
    exact hasSlots
  · rw [queueIs, empty]
    exact Nat.zero_le _
  · rw [queueIs, empty, headIs, tailIs, Nat.zero_mod]
  · unfold Machine.sent Machine.received queued RingBuffer.contents
    rw [powered.log, queueIs, empty]
    rfl

/-- In every state of every run the queue is a bounded FIFO channel, and every
step from there sends one message, receives one, or leaves the queue alone. -/
theorem isChannel_of_reachable
    (reached : Reachable PoweredUp regionStep (fun _ _ => True) machine) (q : Nat)
    (storage : StorageExists (machine.kernel.msgQueue q)) :
    IsChannel machine q ∧
      ∀ action after, regionStep machine action = some after → QueueStep q machine after := by
  have holds : StorageExists (machine.kernel.msgQueue q) → ChannelInvariant machine q :=
    Transition.Reachable.invariant
      (fun s => StorageExists (s.kernel.msgQueue q) → ChannelInvariant s q)
      (fun s powered _ => powered.channelInvariant q)
      (fun s a next ih _ taken fits =>
        have step := @regionStep_queueStep s next a q taken
        have fitsBefore := step.storage.mp fits
        channelInvariant_step fitsBefore (ih fitsBefore) step) reached
  have invariant := holds storage
  exact ⟨⟨invariant.order, RingBuffer.contents_length, invariant.shape.bounded,
    invariant.shape.tail⟩, fun action after taken => regionStep_queueStep taken⟩

def sendTwiceReceive : List RegionAction :=
  [.create (some 0) 100 256 (some 1) (some 0), .create (some 0) 100 256 (some 2) (some 0),
    .pendSV, .call (.send 0 (fun _ => 7) 0), .advance, .call (.send 0 (fun _ => 9) 5), .advance,
    .advance, .advance, .pendSV, .call (.recv 0 0), .advance, .dispatch 1, .advance, .advance]

theorem isChannel_after_retry :
    ∃ machine, Reachable PoweredUp regionStep (fun _ _ => True) machine ∧
      machine.sent 0 = [[7], [9]] ∧ machine.received 0 = [[7]] ∧
      (machine.kernel.msgQueue 0).depth = 1 ∧ IsChannel machine 0 := by
  obtain ⟨final, reached, found⟩ :=
    @exists_reachable_of_run Machine RegionAction PoweredUp regionStep (fun _ _ => True)
      (fun _ _ => true)
      (fun s => decide (s.sent 0 = [[7], [9]]) && decide (s.received 0 = [[7]]) &&
        decide ((s.kernel.msgQueue 0).depth = 1) && decide ((s.kernel.msgQueue 0).msgSize = 1))
      (fun _ _ _ => trivial) sendTwiceReceive poweredMachine poweredUp_poweredMachine
      (by decide +kernel)
  simp only [Bool.and_eq_true, decide_eq_true_eq] at found
  obtain ⟨⟨⟨sentIs, receivedIs⟩, depthIs⟩, sizeIs⟩ := found
  have storage : StorageExists (final.kernel.msgQueue 0) := by
    unfold StorageExists
    rw [depthIs, sizeIs]
    decide
  exact ⟨final, reached, sentIs, receivedIs, depthIs,
    (isChannel_of_reachable reached 0 storage).1⟩

end MicrokernelRtos
