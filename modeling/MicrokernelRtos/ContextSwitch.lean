/-
context_switch.s: `SVC_Handler` and `PendSV_Handler`, what the processor itself does
when it enters and leaves an exception, and the parts of task.c that deal with the
stack of a task: its first frame, and the check of its canary.

The registers that a C function may change without saving them are in the frame that
the processor pushes and pops; r4 to r11 are saved by the code.  `main` runs on the
main stack, which no task shares, so that its frame is not followed there.  The
floating-point unit is never switched on, and every frame has eight words.

An address counts from the first byte of `heap_pool`, as in the heap.
-/

import MicrokernelRtos.Heap
import MicrokernelRtos.Task
import MicrokernelRtos.Library.WordMemory
import Mathlib.Data.BitVec

namespace MicrokernelRtos

open Words

/-! ### The code -/

abbrev Word := BitVec 32

/-- Eight registers: r4 to r11, or r0 to r3, r12, lr, pc and xPSR. -/
abbrev Registers := Fin 8 → Word

def xpsr : Fin 8 := Fin.last 7

def alignBit : Word := 0x200#32

def stackCanary : Word := 0xDEADBEEF#32

/-- What the linker decides: the places of `idle_stack_words` and of two functions of
task.c.  The array is none of the bytes of `heap_pool`. -/
structure Image where
  idleStack : Nat
  idleTaskFn : Word
  taskExitTrap : Word
  outside : heapPoolSize ≤ idleStack
  aligned : 8 ∣ idleStack

def idleStackSize : Nat := 4096

/-- The registers, the words of the stacks, and the field `stack_ptr` of the control
blocks.  `onPsp` says that the thread uses the process stack, as all tasks do. -/
structure Cpu where
  callee : Registers
  frame : Registers
  psp : Nat
  onPsp : Bool
  words : Nat → Word
  stackPtr : Addr → Nat

def stackedFrame (frame : Registers) (moved : Bool) : Registers :=
  Function.update frame xpsr ((frame xpsr &&& ~~~alignBit) ||| if moved then alignBit else 0)

def unstackedFrame (frame : Registers) : Registers :=
  Function.update frame xpsr (frame xpsr &&& ~~~alignBit)

def unstackedPsp (addr : Nat) (frame : Registers) : Nat :=
  if (frame xpsr).getLsbD 9 then (addr + 32) ||| 4 else addr + 32

/-- The processor pushes the frame of the thread, at a multiple of eight. -/
def exceptionEntry (cpu : Cpu) : Cpu :=
  if cpu.onPsp then
    let addr := (cpu.psp - 32) / 8 * 8
    { cpu with
      words := store cpu.words addr (stackedFrame cpu.frame (decide (cpu.psp % 8 = 4)))
      psp := addr }
  else cpu

/-- The processor pops the frame of the thread it returns to. -/
def exceptionReturn (cpu : Cpu) : Cpu :=
  if cpu.onPsp then
    let frame := load cpu.words 8 cpu.psp
    { cpu with frame := unstackedFrame frame, psp := unstackedPsp cpu.psp frame }
  else cpu

/-- `PendSV_Handler` up to `.L_no_save`. -/
def saveContext (current : Option Addr) (cpu : Cpu) : Cpu :=
  if cpu.psp = 0 then cpu
  else
    let saved := { cpu with words := store cpu.words (cpu.psp - 32) cpu.callee }
    match current with
    | none => saved
    | some tcb => { saved with stackPtr := Function.update saved.stackPtr tcb (cpu.psp - 32) }

/-- `ldr r2, [r0]`, `ldmia r2!, {r4-r11}` and `msr psp, r2`. -/
def loadContext (cpu : Cpu) (tcb : Addr) : Cpu :=
  { cpu with
    callee := load cpu.words 8 (cpu.stackPtr tcb)
    psp := cpu.stackPtr tcb + 32 }

def pendSvHandler (kernel : Kernel) (cpu : Cpu) : Option (Kernel × Cpu) :=
  (schedulerGetNext kernel).map fun next =>
    (next.2, loadContext (saveContext kernel.currentTcb cpu) next.1)

/-- The handler ends with the return to a thread on the process stack. -/
def svcHandler (kernel : Kernel) (cpu : Cpu) : Option (Kernel × Cpu) :=
  (schedulerGetNext kernel).map fun next =>
    (next.2, { loadContext cpu next.1 with onPsp := true })

/-- An exception from its entry to its return. -/
def takeException (handler : Kernel → Cpu → Option (Kernel × Cpu)) (kernel : Kernel) (cpu : Cpu) :
    Option (Kernel × Cpu) :=
  (handler kernel (exceptionEntry cpu)).map fun handled => (handled.1, exceptionReturn handled.2)

def firstFrame (image : Image) (taskFunc : Word) : Registers := fun index =>
  if index.val = 5 then image.taskExitTrap
  else if index.val = 6 then taskFunc
  else if index.val = 7 then 0x01000000#32
  else 0

def buildInitialStack (image : Image) (words : Nat → Word) (stackHighExclusive : Nat)
    (taskFunc : Word) : Nat × (Nat → Word) :=
  (stackHighExclusive - 64,
    store (store words (stackHighExclusive - 32) (firstFrame image taskFunc))
      (stackHighExclusive - 64) (fun _ : Fin 8 => (0 : Word)))

structure Stack where
  base : Nat
  size : Nat

/-- `(uintptr_t)high & ~(uintptr_t)7u` -/
def Stack.high (stack : Stack) : Nat := (stack.base + stack.size) / 8 * 8

/-- The part of `_task_build_common` that deals with the stack. -/
def buildStack (image : Image) (cpu : Cpu) (tcb : Addr) (stack : Stack) (taskFunc : Word) : Cpu :=
  let guarded := Function.update cpu.words stack.base stackCanary
  let built := buildInitialStack image guarded stack.high taskFunc
  { cpu with words := built.2, stackPtr := Function.update cpu.stackPtr tcb built.1 }

/-- The loop of `rtos_stack_check_all`: the task and the word of the first canary that
is not there, where the code then loops forever. -/
def stackCheck (stackOf : Addr → Stack) (words : Nat → Word) : List Addr → Option (Addr × Word)
  | [] => none
  | t :: rest =>
      if words (stackOf t).base ≠ stackCanary then some (t, words (stackOf t).base)
      else stackCheck stackOf words rest

def rtosStackCheckAll (kernel : Kernel) (stackOf : Addr → Stack) (cpu : Cpu) :
    Option (Addr × Word) :=
  stackCheck stackOf cpu.words kernel.taskRegistry

/-! ### Contexts -/

/-- What a task computes with: its registers, its stack pointer, and the words of its
stack from there up to its end. -/
structure Context where
  callee : Registers
  frame : Registers
  psp : Nat
  high : Nat
  stack : Nat → Word

def Cpu.context (cpu : Cpu) (high : Nat) : Context :=
  ⟨cpu.callee, cpu.frame, cpu.psp, high, excerpt cpu.words cpu.psp high⟩

/-- The context that is kept on a stack from `addr` upwards. -/
def savedContext (words : Nat → Word) (addr high : Nat) : Context :=
  let frame := load words 8 (addr + 32)
  ⟨load words 8 addr, unstackedFrame frame, unstackedPsp (addr + 32) frame, high,
    excerpt words (unstackedPsp (addr + 32) frame) high⟩

/-- The stack pointer leaves room above the canary for what an interrupt and a switch
push: two times eight words, and one word to align them. -/
structure Room (stack : Stack) (psp : Nat) : Prop where
  low : stack.base + 72 ≤ psp
  high : psp ≤ stack.high
  aligned : 4 ∣ psp

/-- A context lies on the stack, above the canary. -/
structure Saved (words : Nat → Word) (stack : Stack) (addr : Nat) : Prop where
  low : stack.base + 8 ≤ addr
  aligned : 8 ∣ addr
  high : (savedContext words addr stack.high).psp ≤ stack.high

section Frames

variable {frame : Registers} {moved : Bool}

theorem alignBit_getLsbD (bit : Nat) : alignBit.getLsbD bit = decide (bit = 9) := by
  have power : alignBit = BitVec.twoPow 32 9 := by decide
  rw [power, BitVec.getLsbD_twoPow]
  by_cases same : bit = 9
  · subst same
    rfl
  · simp [same, Ne.symm same]

theorem stackedFrame_bit (frame : Registers) (moved : Bool) :
    (stackedFrame frame moved xpsr).getLsbD 9 = moved := by
  unfold stackedFrame
  rw [Function.update_self]
  cases moved with
  | false => simp [alignBit_getLsbD]
  | true => simp [alignBit_getLsbD]

/-- The flag of the alignment goes on and off the stack, and no other bit is lost. -/
theorem unstackedFrame_stackedFrame (clear : (frame xpsr).getLsbD 9 = false) :
    unstackedFrame (stackedFrame frame moved) = frame := by
  funext index
  by_cases last : index = xpsr
  · subst last
    unfold unstackedFrame stackedFrame
    rw [Function.update_self, Function.update_self]
    apply BitVec.eq_of_getLsbD_eq
    intro bit bound
    simp only [BitVec.getLsbD_and, BitVec.getLsbD_or, BitVec.getLsbD_not, alignBit_getLsbD]
    by_cases flag : bit = 9
    · subst flag
      simp only [clear, decide_true, Bool.not_true, Bool.and_false]
    · have unmoved : (if moved then alignBit else 0).getLsbD bit = false := by
        cases moved with
        | false => exact BitVec.getLsbD_zero
        | true => rw [if_pos rfl, alignBit_getLsbD, decide_eq_false flag]
      simp only [unmoved, flag, bound, decide_false, decide_true, Bool.not_false, Bool.and_true,
        Bool.or_false]
  · unfold unstackedFrame stackedFrame
    rw [Function.update_of_ne last, Function.update_of_ne last]

theorem unstackedFrame_bit (frame : Registers) : (unstackedFrame frame xpsr).getLsbD 9 = false := by
  unfold unstackedFrame
  rw [Function.update_self]
  simp [alignBit_getLsbD]

theorem or_four {addr : Nat} (aligned : 8 ∣ addr) : addr ||| 4 = addr + 4 := by
  obtain ⟨count, rfl⟩ := aligned
  have sum := Nat.two_pow_add_eq_or_of_lt (show 4 < 2 ^ 3 by decide) count
  exact sum.symm

/-- The frame lies right below the stack pointer, or one word further down. -/
theorem unstackedPsp_cases {addr : Nat} (aligned : 8 ∣ addr) (frame : Registers) :
    unstackedPsp addr frame = addr + 32 ∨ unstackedPsp addr frame = addr + 36 := by
  unfold unstackedPsp
  split
  · rw [or_four (by omega)]
    exact Or.inr rfl
  · exact Or.inl rfl

theorem unstackedPsp_stackedFrame {psp : Nat} (aligned : 4 ∣ psp) (enough : 36 ≤ psp) :
    unstackedPsp ((psp - 32) / 8 * 8) (stackedFrame frame (decide (psp % 8 = 4))) = psp := by
  unfold unstackedPsp
  rw [stackedFrame_bit]
  by_cases odd : psp % 8 = 4
  · rw [decide_eq_true odd, if_pos rfl, or_four (by omega)]
    omega
  · rw [decide_eq_false odd, if_neg (by decide)]
    omega

end Frames

/-! ### Saving and restoring -/

section Switching

variable {cpu : Cpu} {stack : Stack} {addr : Nat} {words other : Nat → Word}

theorem Saved.within (saved : Saved words stack addr) : addr + 64 ≤ stack.high := by
  have aligned := saved.aligned
  have bound := saved.high
  unfold savedContext at bound
  simp only at bound
  rcases unstackedPsp_cases (show 8 ∣ addr + 32 by omega) (load words 8 (addr + 32)) with
    plain | moved
  · omega
  · omega

theorem savedContext_congr {high : Nat} (agree : AgreeOn words other addr high)
    (aligned : 8 ∣ addr) (within : addr + 64 ≤ high) :
    savedContext words addr high = savedContext other addr high := by
  have callees : load words 8 addr = load other 8 addr :=
    load_congr agree (Nat.le_refl _) (by omega)
  have frames : load words 8 (addr + 32) = load other 8 (addr + 32) :=
    load_congr agree (by omega) (by omega)
  have above : addr ≤ unstackedPsp (addr + 32) (load other 8 (addr + 32)) := by
    rcases unstackedPsp_cases (show 8 ∣ addr + 32 by omega) (load other 8 (addr + 32)) with
      plain | moved
    · omega
    · omega
  unfold savedContext
  simp only [callees, frames]
  rw [excerpt_congr (agree.mono above (Nat.le_refl _))]

theorem Saved.context_eq (saved : Saved words stack addr)
    (agree : AgreeOn other words stack.base stack.high) :
    savedContext other addr stack.high = savedContext words addr stack.high := by
  have low := saved.low
  exact savedContext_congr (agree.mono (by omega) (Nat.le_refl _)) saved.aligned saved.within

theorem Saved.congr (saved : Saved words stack addr)
    (agree : AgreeOn other words stack.base stack.high) : Saved other stack addr := by
  refine ⟨saved.low, saved.aligned, ?_⟩
  rw [saved.context_eq agree]
  exact saved.high

/-- A thread on the process stack that has room for an interrupt. -/
structure Interruptible (cpu : Cpu) (stack : Stack) : Prop where
  onPsp : cpu.onPsp = true
  base : 8 ∣ stack.base
  room : Room stack cpu.psp
  clear : (cpu.frame xpsr).getLsbD 9 = false

theorem Interruptible.entry (ready : Interruptible cpu stack) :
    exceptionEntry cpu =
      { cpu with
        words := store cpu.words ((cpu.psp - 32) / 8 * 8)
          (stackedFrame cpu.frame (decide (cpu.psp % 8 = 4)))
        psp := (cpu.psp - 32) / 8 * 8 } := by
  unfold exceptionEntry
  rw [if_pos ready.onPsp]

theorem Interruptible.resumes (ready : Interruptible cpu stack) :
    exceptionReturn (exceptionEntry cpu) =
      { cpu with
        words := store cpu.words ((cpu.psp - 32) / 8 * 8)
          (stackedFrame cpu.frame (decide (cpu.psp % 8 = 4))) } := by
  have low := ready.room.low
  rw [ready.entry]
  unfold exceptionReturn
  rw [if_pos ready.onPsp]
  simp only [load_store, unstackedFrame_stackedFrame ready.clear]
  rw [unstackedPsp_stackedFrame ready.room.aligned (by omega)]

/-- The thread notices nothing of such an exception. -/
theorem Interruptible.after_resuming (ready : Interruptible cpu stack) :
    (exceptionReturn (exceptionEntry cpu)).context stack.high = cpu.context stack.high ∧
      Interruptible (exceptionReturn (exceptionEntry cpu)) stack ∧
      ∀ place, place < stack.base + 8 ∨ cpu.psp ≤ place →
        (exceptionReturn (exceptionEntry cpu)).words place = cpu.words place := by
  have low := ready.room.low
  have base := ready.base
  have outside : ∀ place, place < stack.base + 8 ∨ cpu.psp ≤ place →
      store cpu.words ((cpu.psp - 32) / 8 * 8)
        (stackedFrame cpu.frame (decide (cpu.psp % 8 = 4))) place = cpu.words place := by
    intro place away
    apply store_outside
    omega
  rw [ready.resumes]
  refine ⟨?_, ⟨ready.onPsp, base, ready.room, ready.clear⟩, outside⟩
  unfold Cpu.context
  simp only
  rw [excerpt_congr fun place above _ => outside place (Or.inr above)]

theorem exceptionEntry_main (onMain : cpu.onPsp = false) : exceptionEntry cpu = cpu := by
  unfold exceptionEntry
  rw [if_neg (by rw [onMain]; decide)]

theorem exceptionReturn_main (onMain : cpu.onPsp = false) :
    exceptionReturn (exceptionEntry cpu) = cpu := by
  rw [exceptionEntry_main onMain]
  unfold exceptionReturn
  rw [if_neg (by rw [onMain]; decide)]

def savePoint (psp : Nat) : Nat := (psp - 32) / 8 * 8 - 32

theorem Room.savePoint_low (room : Room stack addr) (base : 8 ∣ stack.base) :
    stack.base + 8 ≤ savePoint addr ∧ 8 ∣ savePoint addr ∧ savePoint addr + 64 ≤ addr := by
  have low := room.low
  unfold savePoint
  omega

theorem Interruptible.saves (ready : Interruptible cpu stack) (t : Addr) :
    saveContext (some t) (exceptionEntry cpu) =
      { cpu with
        words := store (store cpu.words ((cpu.psp - 32) / 8 * 8)
          (stackedFrame cpu.frame (decide (cpu.psp % 8 = 4)))) (savePoint cpu.psp) cpu.callee
        psp := (cpu.psp - 32) / 8 * 8
        stackPtr := Function.update cpu.stackPtr t (savePoint cpu.psp) } := by
  have low := ready.room.low
  have nonzero : (cpu.psp - 32) / 8 * 8 ≠ 0 := by omega
  rw [ready.entry]
  unfold saveContext
  rw [if_neg nonzero]
  rfl

theorem Interruptible.saves_outside (ready : Interruptible cpu stack) (t : Addr) {place : Nat}
    (outside : place < stack.base + 8 ∨ cpu.psp ≤ place) :
    (saveContext (some t) (exceptionEntry cpu)).words place = cpu.words place := by
  have low := ready.room.low
  have point := ready.room.savePoint_low ready.base
  have frameAt : savePoint cpu.psp + 32 = (cpu.psp - 32) / 8 * 8 := by
    unfold savePoint
    omega
  rw [ready.saves]
  change store (store cpu.words _ _) _ _ place = _
  rw [store_outside (by omega), store_outside (by omega)]

theorem Interruptible.savedContext_eq (ready : Interruptible cpu stack) (t : Addr) :
    savedContext (saveContext (some t) (exceptionEntry cpu)).words (savePoint cpu.psp) stack.high =
      cpu.context stack.high := by
  have low := ready.room.low
  have frameAt : savePoint cpu.psp + 32 = (cpu.psp - 32) / 8 * 8 := by
    unfold savePoint
    omega
  have kept : AgreeOn (saveContext (some t) (exceptionEntry cpu)).words cpu.words cpu.psp
      stack.high := fun place above _ => ready.saves_outside t (Or.inr above)
  rw [ready.saves] at kept ⊢
  unfold savedContext Cpu.context
  simp only at kept ⊢
  have frames : load (store (store cpu.words ((cpu.psp - 32) / 8 * 8)
      (stackedFrame cpu.frame (decide (cpu.psp % 8 = 4)))) (savePoint cpu.psp) cpu.callee) 8
      ((cpu.psp - 32) / 8 * 8) = stackedFrame cpu.frame (decide (cpu.psp % 8 = 4)) := by
    rw [load_congr (store_agrees (Or.inl (by omega))) (Nat.le_refl _) (Nat.le_refl _), load_store]
  rw [load_store, frameAt, frames, unstackedFrame_stackedFrame ready.clear,
    unstackedPsp_stackedFrame ready.room.aligned (by omega), excerpt_congr kept]

theorem Interruptible.saved (ready : Interruptible cpu stack) (t : Addr) :
    Saved (saveContext (some t) (exceptionEntry cpu)).words stack (savePoint cpu.psp) := by
  have point := ready.room.savePoint_low ready.base
  refine ⟨point.1, point.2.1, ?_⟩
  rw [ready.savedContext_eq]
  exact ready.room.high

theorem exceptionReturn_keeps (cpu : Cpu) :
    (exceptionReturn cpu).words = cpu.words ∧ (exceptionReturn cpu).stackPtr = cpu.stackPtr ∧
      (exceptionReturn cpu).onPsp = cpu.onPsp := by
  unfold exceptionReturn
  split
  · exact ⟨rfl, rfl, rfl⟩
  · exact ⟨rfl, rfl, rfl⟩

/-- The way back: the handler loads what was saved and the processor pops the rest. -/
theorem Saved.restores {t : Addr} (saved : Saved cpu.words stack (cpu.stackPtr t))
    (base : 8 ∣ stack.base) (onPsp : cpu.onPsp = true) :
    (exceptionReturn (loadContext cpu t)).context stack.high =
        savedContext cpu.words (cpu.stackPtr t) stack.high ∧
      Interruptible (exceptionReturn (loadContext cpu t)) stack := by
  have returned : exceptionReturn (loadContext cpu t) =
      { cpu with
        callee := load cpu.words 8 (cpu.stackPtr t)
        frame := unstackedFrame (load cpu.words 8 (cpu.stackPtr t + 32))
        psp := unstackedPsp (cpu.stackPtr t + 32) (load cpu.words 8 (cpu.stackPtr t + 32)) } := by
    unfold exceptionReturn
    rw [if_pos (show (loadContext cpu t).onPsp = true from onPsp)]
    rfl
  rw [returned]
  have low := saved.low
  have aligned := saved.aligned
  refine ⟨rfl, onPsp, base, ⟨?_, saved.high, ?_⟩, unstackedFrame_bit _⟩
  all_goals
    rcases unstackedPsp_cases (show 8 ∣ cpu.stackPtr t + 32 by omega)
      (load cpu.words 8 (cpu.stackPtr t + 32)) with plain | moved
    · simp only [plain]
      omega
    · simp only [moved]
      omega

end Switching

/-! ### The first frame -/

def firstContext (image : Image) (stack : Stack) (taskFunc : Word) : Context :=
  ⟨fun _ => 0, firstFrame image taskFunc, stack.high, stack.high, fun _ => 0⟩

section FirstFrame

variable {image : Image} {cpu : Cpu} {stack : Stack} {tcb : Addr} {taskFunc : Word}

theorem firstFrame_bit (image : Image) (taskFunc : Word) :
    (firstFrame image taskFunc xpsr).getLsbD 9 = false :=
  show (0x01000000#32).getLsbD 9 = false by decide

theorem unstackedFrame_firstFrame (image : Image) (taskFunc : Word) :
    unstackedFrame (firstFrame image taskFunc) = firstFrame image taskFunc := by
  have cleared : (0x01000000#32 : Word) &&& ~~~alignBit = 0x01000000#32 := by decide
  funext index
  unfold unstackedFrame
  by_cases last : index = xpsr
  · subst last
    rw [Function.update_self]
    exact cleared
  · rw [Function.update_of_ne last]

theorem buildStack_words :
    (buildStack image cpu tcb stack taskFunc).words =
      store (store (Function.update cpu.words stack.base stackCanary) (stack.high - 32)
        (firstFrame image taskFunc)) (stack.high - 64) (fun _ : Fin 8 => (0 : Word)) := by
  unfold buildStack buildInitialStack
  rfl

theorem buildStack_stackPtr :
    (buildStack image cpu tcb stack taskFunc).stackPtr =
      Function.update cpu.stackPtr tcb (stack.high - 64) := rfl

theorem buildStack_outside {place : Nat} (large : stack.base + 72 ≤ stack.high)
    (outside : place < stack.base ∨ stack.high ≤ place) :
    (buildStack image cpu tcb stack taskFunc).words place = cpu.words place := by
  rw [buildStack_words, store_outside (by omega), store_outside (by omega)]
  exact Function.update_of_ne (by omega) _ _

theorem buildStack_canary (large : stack.base + 72 ≤ stack.high) :
    (buildStack image cpu tcb stack taskFunc).words stack.base = stackCanary := by
  rw [buildStack_words, store_outside (by omega), store_outside (by omega), Function.update_self]

theorem buildStack_savedContext (large : stack.base + 72 ≤ stack.high) :
    savedContext (buildStack image cpu tcb stack taskFunc).words (stack.high - 64) stack.high =
      firstContext image stack taskFunc := by
  have frameAt : stack.high - 64 + 32 = stack.high - 32 := by omega
  have top : stack.high - 32 + 32 = stack.high := by omega
  have empty : ∀ words : Nat → Word, excerpt words stack.high stack.high = fun _ => 0 := by
    intro words
    funext place
    unfold excerpt
    rw [if_neg (by omega)]
  unfold savedContext firstContext
  simp only [buildStack_words]
  rw [load_store, frameAt,
    load_congr (store_agrees (Or.inl (by omega))) (Nat.le_refl _) (Nat.le_refl _), load_store,
    unstackedFrame_firstFrame]
  unfold unstackedPsp
  rw [firstFrame_bit, if_neg (by decide), top, empty]

theorem buildStack_saved (large : stack.base + 72 ≤ stack.high) :
    Saved (buildStack image cpu tcb stack taskFunc).words stack (stack.high - 64) := by
  have aligned : 8 ∣ stack.high := Nat.dvd_mul_left 8 _
  refine ⟨by omega, by omega, ?_⟩
  rw [buildStack_savedContext large]
  exact Nat.le_refl _

end FirstFrame

end MicrokernelRtos
