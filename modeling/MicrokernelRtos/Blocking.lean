/-
block.c, and the lines that every wakeup in the kernel shares.

`rtos_block_current` writes three fields of the caller, then enters the region
with interrupts disabled that takes it out of its ready ring, and then waits for
its state to change.  The three parts are kept apart because a context switch
may fall between them.
-/

import MicrokernelRtos.WaitList

namespace MicrokernelRtos

open Linked

/-! ### The code -/

/-- What one pass through an interrupt-disabled region of a blocking call ends
with: the call returns, with the bytes it delivers, or the caller has to block. -/
inductive Outcome where
  | returns (status : Status) (out : List UInt8)
  | blocks
  deriving DecidableEq, Repr

def rtosGetTick (kernel : Kernel) : Nat := kernel.tickCount

/-- The writes of `rtos_block_current` before `cpsid i`. -/
def blockFields (kernel : Kernel) (self : Addr) (reason : BlockReason) (obj : Option Nat) :
    Kernel :=
  { kernel with
    blockReason := Function.update kernel.blockReason self reason
    blockObject := Function.update kernel.blockObject self obj
    blockWakeStatus := Function.update kernel.blockWakeStatus self .ok }

/-- The wake time for a timeout in ticks, zero being `RTOS_WAIT_FOREVER`. -/
def wakeTimeFor (now timeoutTicks : Nat) : Nat :=
  if timeoutTicks = 0 then uint32Max else (now + timeoutTicks) % uint32Size

/-- The writes of `rtos_block_current` after `cpsid i`. -/
def blockState (kernel : Kernel) (self : Addr) (timeoutTicks : Nat) : Kernel :=
  { kernel with
    wakeTime := Function.update kernel.wakeTime self
      (wakeTimeFor (rtosGetTick kernel) timeoutTicks)
    state := Function.update kernel.state self .blocked }

/-- The interrupt-disabled region of `rtos_block_current`, with the reschedule
request that follows it. -/
def blockRegion (kernel : Kernel) (self : Addr) (timeoutTicks : Nat) : Option Kernel :=
  (schedulerRemoveTask (blockState kernel self timeoutTicks) (some self)).map
    schedulerMarkReschedule

/-- `rtos_block_current` up to its wait loop, without a context switch inside. -/
def rtosBlockCurrent (kernel : Kernel) (timeoutTicks : Nat) (reason : BlockReason)
    (obj : Option Nat) : Option (Outcome × Kernel) :=
  match kernel.currentTcb with
  | none => some (.returns .errState [], kernel)
  | some self =>
      (blockRegion (blockFields kernel self reason obj) self timeoutTicks).map fun blocked =>
        (.blocks, blocked)

/-- One pass of a blocking call: its region and, when that made the caller wait,
`rtos_block_current`. -/
def blockingPass (region : Option (Outcome × Kernel)) (timeoutTicks : Nat)
    (reason : BlockReason) (obj : Option Nat) : Option (Outcome × Kernel) :=
  region.bind fun entered =>
    match entered.1 with
    | .returns status out => some (.returns status out, entered.2)
    | .blocks => rtosBlockCurrent entered.2 timeoutTicks reason obj

def readyFields (kernel : Kernel) (t : Addr) : Kernel :=
  { kernel with
    blockReason := Function.update kernel.blockReason t .none
    blockObject := Function.update kernel.blockObject t none
    state := Function.update kernel.state t .ready }

/-- The last lines of every wakeup: no block reason, no object, READY, and
`scheduler_add_task`. -/
def makeReady (kernel : Kernel) (t : Addr) : Option Kernel :=
  (schedulerAddTask (readyFields kernel t) (some t)).map Prod.snd

def timeoutStatus (kernel : Kernel) (t : Addr) : Kernel :=
  { kernel with blockWakeStatus := Function.update kernel.blockWakeStatus t .errTimeout }

/-! ### Frames -/

theorem makeReady_onlyRings {kernel result : Kernel} {t : Addr}
    (returned : makeReady kernel t = some result) : OnlyRings (readyFields kernel t) result := by
  obtain ⟨⟨status, added⟩, addition, rfl⟩ := Option.map_eq_some_iff.mp returned
  refine schedulerAddTask_onlyRings ?_ addition
  simp [readyFields]

theorem blockRegion_onlyRings {kernel result : Kernel} {self : Addr} {timeoutTicks : Nat}
    (returned : blockRegion kernel self timeoutTicks = some result) :
    OnlyRings (schedulerMarkReschedule (blockState kernel self timeoutTicks)) result := by
  obtain ⟨removed, removal, rfl⟩ := Option.map_eq_some_iff.mp returned
  have frame := schedulerRemoveTask_onlyRings removal
  refine ⟨?_, frame.waitNext, frame.waitHead, frame.waitTail⟩
  unfold schedulerMarkReschedule
  rw [frame.core]

/-! ### The rings -/

variable {kernel : Kernel} {rings : Bucket → List Addr}

theorem makeReady_spec {t : Addr} (lists : kernel.RingsAre rings)
    (enough : (rings (kernel.prioBucket t)).length ≤ kernel.walkLimit)
    (absent : ∀ bucket, t ∉ rings bucket) :
    ∃ result, makeReady kernel t = some result ∧ OnlyRings (readyFields kernel t) result ∧
      result.RingsAre (Function.update rings (kernel.prioBucket t)
        (rings (kernel.prioBucket t) ++ [t])) := by
  obtain ⟨result, addition, frame, added⟩ :=
    @schedulerAddTask_spec (readyFields kernel t) rings t
      ⟨lists.family, lists.fresh⟩ enough absent (by simp [readyFields])
  exact ⟨result, by simp [makeReady, addition], frame, added⟩

theorem blockRegion_spec {self : Addr} {timeoutTicks : Nat} (lists : kernel.RingsAre rings)
    (enough : (rings (kernel.prioBucket self)).length ≤ kernel.walkLimit) :
    ∃ result, blockRegion kernel self timeoutTicks = some result ∧
      OnlyRings (schedulerMarkReschedule (blockState kernel self timeoutTicks)) result ∧
      result.RingsAre (Function.update rings (kernel.prioBucket self)
        ((rings (kernel.prioBucket self)).erase self)) := by
  obtain ⟨removed, removal, _, removedLists⟩ :=
    @schedulerRemoveTask_spec (blockState kernel self timeoutTicks) rings self
      ⟨lists.family, lists.fresh⟩ enough
  have returned : blockRegion kernel self timeoutTicks =
      some (schedulerMarkReschedule removed) := by
    simp [blockRegion, removal]
  exact ⟨_, returned, blockRegion_onlyRings returned, removedLists.family, removedLists.fresh⟩

end MicrokernelRtos
