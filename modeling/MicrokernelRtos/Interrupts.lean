/-
`rtos_start` up to `svc 0`, with the functions of system.c that it calls, and the order in
which the processor takes exceptions after it.

`nvic_set_priority` writes a whole byte, of which the processor implements the upper
`NVIC_PRIO_BITS` bits and reads the others as zero.  The two priorities that `rtos_start`
sets fit in the lower four bits, so that PendSV and SysTick both stay at the priority of
the reset, which is the most urgent one.  No handler interrupts another, as the kernel
needs it, and a switch is taken before a tick that is pending with it.

The faults are left out: their handlers loop forever.
-/

import MicrokernelRtos.KernelState
import MicrokernelRtos.Library.Nesting
import MicrokernelRtos.Library.TransitionSystem
import Mathlib.Data.BitVec

namespace MicrokernelRtos

open Nesting Transition

/-! ### The code -/

/-- The registers of the system control block and of SysTick. -/
structure CoreRegisters where
  priority : BitVec 32 → BitVec 8
  sysTickCtrl : BitVec 32
  sysTickLoad : BitVec 32
  sysTickVal : BitVec 32

def nvicPrioBits : Nat := 4

/-- What is left of a byte that is written to a priority register. -/
def implementedBits (byte : BitVec 8) : BitVec 8 := byte &&& (0xFF#8 <<< (8 - nvicPrioBits))

def scbShprBase : BitVec 32 := 0xE000ED18#32

def nvicIprBase : BitVec 32 := 0xE000E400#32

def priorityRegister (irqn : BitVec 32) : BitVec 32 :=
  if irqn.slt 0 then scbShprBase + ((irqn &&& 0xF) - 4) else nvicIprBase + irqn

def nvicSetPriority (regs : CoreRegisters) (irqn preemptPrio : BitVec 32) : CoreRegisters :=
  { regs with
    priority := Function.update regs.priority (priorityRegister irqn)
      (implementedBits ((preemptPrio &&& 0xFF).setWidth 8)) }

def sysTickConfig (regs : CoreRegisters) (ticks : BitVec 32) : BitVec 32 × CoreRegisters :=
  if ticks - 1 > 0xFFFFFF#32 then (1, regs)
  else (0, { regs with sysTickLoad := ticks - 1, sysTickVal := 0, sysTickCtrl := 7 })

def tickRateHz : BitVec 32 := 1000

/-- `rtos_start` with `SystemCoreClock` as `SystemInitClock` has left it.  Without a status
it goes on to `svc 0`, and does not return. -/
def rtosStart (idleTcb : Option Addr) (systemCoreClock : BitVec 32) (regs : CoreRegisters) :
    Option Status × CoreRegisters :=
  match idleTcb with
  | none => (some .errState, regs)
  | some _ =>
      let withTick := nvicSetPriority regs (-1) (1 <<< (nvicPrioBits - 1))
      let withSwitch := nvicSetPriority withTick (-2) ((1 <<< nvicPrioBits) - 1)
      let configured := sysTickConfig withSwitch (systemCoreClock / tickRateHz)
      if configured.1 ≠ 0 then (some .errState, configured.2) else (none, configured.2)

/-! ### Exceptions -/

/-- The exceptions in use, and the lines of the vector table. -/
inductive Exc where
  | svCall
  | pendSv
  | sysTick
  | irq (line : Fin 82)
  deriving DecidableEq

def Exc.number : Exc → Nat
  | .svCall => 11
  | .pendSv => 14
  | .sysTick => 15
  | .irq line => 16 + line.val

/-- The register with the priority of an exception: one byte for each, from the fourth
entry of the vector table on for the processor and from the sixteenth on for the lines. -/
def Exc.register (e : Exc) : BitVec 32 :=
  if e.number < 16 then scbShprBase + BitVec.ofNat 32 (e.number - 4)
  else nvicIprBase + BitVec.ofNat 32 (e.number - 16)

/-- A priority below `1 << NVIC_PRIO_BITS` leaves nothing in the register. -/
theorem implementedBits_small {preemptPrio : BitVec 32}
    (small : preemptPrio.toNat < 2 ^ nvicPrioBits) :
    implementedBits ((preemptPrio &&& 0xFF).setWidth 8) = 0 := by
  have each : ∀ value : Fin (2 ^ nvicPrioBits),
      implementedBits ((BitVec.ofNat 32 value.val &&& 0xFF).setWidth 8) = 0 := by decide
  have found := each ⟨preemptPrio.toNat, small⟩
  rw [BitVec.ofNat_toNat, BitVec.setWidth_eq] at found
  exact found

/-! ### The runs -/

/-- The registers, the exceptions that are pending and those that are active, the
innermost first, and PRIMASK. -/
structure Interrupts where
  regs : CoreRegisters
  pending : List Exc
  active : List Exc
  primask : Bool

def Interrupts.priorityOf (s : Interrupts) (e : Exc) : Nat := (s.regs.priority e.register).toNat

/-- The order in which pending exceptions are taken: of the same priority the one with
the smaller number comes first. -/
def Interrupts.before (s : Interrupts) (e other : Exc) : Prop :=
  s.priorityOf e < s.priorityOf other ∨
    s.priorityOf e = s.priorityOf other ∧ e.number ≤ other.number

instance (s : Interrupts) (e other : Exc) : Decidable (s.before e other) :=
  inferInstanceAs (Decidable (_ ∨ _))

inductive InterruptAction where
  | setPriority (irqn preemptPrio : BitVec 32)
  | pend (e : Exc)
  | cpsid
  | cpsie
  | enter (e : Exc)
  | leave

def interruptStep (s : Interrupts) : InterruptAction → Option Interrupts
  | .setPriority irqn preemptPrio =>
      some { s with regs := nvicSetPriority s.regs irqn preemptPrio }
  | .pend e => some { s with pending := s.pending.insert e }
  | .cpsid => some { s with primask := true }
  | .cpsie => some { s with primask := false }
  | .enter e =>
      if s.primask = false ∧ e ∈ s.pending ∧ Preempts s.priorityOf s.active e ∧
          ∀ other ∈ s.pending, s.before e other then
        some { s with pending := s.pending.erase e, active := e :: s.active }
      else none
  | .leave =>
      match s.active with
      | [] => none
      | _ :: outer => some { s with active := outer }

/-- After `rtos_start`, which `main` has called behind a reset. -/
def InterruptsStarted (s : Interrupts) : Prop :=
  s.active = [] ∧ ∃ idleTcb systemCoreClock reset,
    (∀ register, reset.priority register = 0) ∧
      rtosStart idleTcb systemCoreClock reset = (none, s.regs)

/-- A priority that is set later on has `NVIC_PRIO_BITS` bits, as the two of `rtos_start`. -/
def InterruptAllowed (_ : Interrupts) : InterruptAction → Prop
  | .setPriority _ preemptPrio => preemptPrio.toNat < 2 ^ nvicPrioBits
  | _ => True

structure Unprioritised (s : Interrupts) : Prop where
  reset : ∀ register, s.regs.priority register = 0
  nested : Nested s.priorityOf s.active

section Runs

variable {s after : Interrupts} {action : InterruptAction}

theorem nvicSetPriority_small {regs : CoreRegisters} {irqn preemptPrio : BitVec 32}
    (reset : ∀ register, regs.priority register = 0)
    (small : preemptPrio.toNat < 2 ^ nvicPrioBits) (register : BitVec 32) :
    (nvicSetPriority regs irqn preemptPrio).priority register = 0 := by
  simp only [nvicSetPriority]
  by_cases same : register = priorityRegister irqn
  · rw [same, Function.update_self]
    exact implementedBits_small small
  · rw [Function.update_of_ne same]
    exact reset register

theorem Unprioritised.priorityOf_eq (holds : Unprioritised s) (e : Exc) : s.priorityOf e = 0 := by
  unfold Interrupts.priorityOf
  rw [holds.reset]
  rfl

theorem Unprioritised.length_le (holds : Unprioritised s) : s.active.length ≤ 1 := by
  have bound := holds.nested.length_le {0} fun e _ =>
    Finset.mem_singleton.mpr (holds.priorityOf_eq e)
  rw [Finset.card_singleton] at bound
  exact bound

theorem rtosStart_reset {idleTcb : Option Addr} {systemCoreClock : BitVec 32}
    {regs started : CoreRegisters} (reset : ∀ register, regs.priority register = 0)
    (goesOn : rtosStart idleTcb systemCoreClock regs = (none, started)) (register : BitVec 32) :
    started.priority register = 0 := by
  have withTick := @nvicSetPriority_small regs (-1) (1 <<< (nvicPrioBits - 1)) reset (by decide)
  have withSwitch := @nvicSetPriority_small _ (-2) ((1 <<< nvicPrioBits) - 1) withTick (by decide)
  cases idleTcb with
  | none => cases goesOn
  | some idle =>
      simp only [rtosStart] at goesOn
      split at goesOn
      · cases goesOn
      · cases goesOn
        unfold sysTickConfig
        split
        · exact withSwitch register
        · exact withSwitch register

theorem InterruptsStarted.unprioritised (started : InterruptsStarted s) : Unprioritised s := by
  obtain ⟨thread, idleTcb, systemCoreClock, regs, reset, goesOn⟩ := started
  refine ⟨rtosStart_reset reset goesOn, ?_⟩
  rw [thread]
  exact nested_nil

theorem Unprioritised.step (holds : Unprioritised s) (allowed : InterruptAllowed s action)
    (taken : interruptStep s action = some after) : Unprioritised after := by
  cases action with
  | setPriority irqn preemptPrio =>
      cases taken
      have reset := @nvicSetPriority_small s.regs irqn preemptPrio holds.reset allowed
      have same : Interrupts.priorityOf { s with regs := nvicSetPriority s.regs irqn preemptPrio } =
          s.priorityOf := by
        funext e
        unfold Interrupts.priorityOf
        rw [reset, holds.reset]
      refine ⟨reset, ?_⟩
      rw [same]
      exact holds.nested
  | pend e =>
      cases taken
      exact ⟨holds.reset, holds.nested⟩
  | cpsid =>
      cases taken
      exact ⟨holds.reset, holds.nested⟩
  | cpsie =>
      cases taken
      exact ⟨holds.reset, holds.nested⟩
  | enter e =>
      simp only [interruptStep] at taken
      split at taken
      · rename_i guards
        cases taken
        exact ⟨holds.reset, holds.nested.enter guards.2.2.1⟩
      · cases taken
  | leave =>
      simp only [interruptStep] at taken
      split at taken
      · cases taken
      · rename_i inner outer actives
        cases taken
        have nested := holds.nested
        rw [actives] at nested
        exact ⟨holds.reset, nested.leave⟩

/-- In every run behind `rtos_start` no handler interrupts another, and while a switch is
pending the processor takes no tick and no interrupt of a device. -/
theorem handlers_never_nest
    (reached : Reachable InterruptsStarted interruptStep InterruptAllowed s) :
    s.active.length ≤ 1 ∧ ∀ e after, interruptStep s (.enter e) = some after →
      Exc.pendSv ∈ s.pending → e.number ≤ Exc.pendSv.number := by
  have holds : Unprioritised s :=
    reached.invariant Unprioritised (fun _ started => started.unprioritised)
      fun _ _ _ holds allowed taken => holds.step allowed taken
  refine ⟨holds.length_le, ?_⟩
  intro e after taken pends
  simp only [interruptStep] at taken
  split at taken
  · rename_i guards
    have order : s.before e .pendSv := guards.2.2.2 .pendSv pends
    rcases order with below | ⟨_, first⟩
    · rw [holds.priorityOf_eq, holds.priorityOf_eq] at below
      exact absurd below (Nat.lt_irrefl 0)
    · exact first
  · cases taken

def startedInterrupts : Interrupts where
  regs := (rtosStart (some 8) 16000000 ⟨fun _ => 0, 0, 0, 0⟩).2
  pending := []
  active := []
  primask := false

theorem interruptsStarted_startedInterrupts : InterruptsStarted startedInterrupts :=
  ⟨rfl, some 8, 16000000, ⟨fun _ => 0, 0, 0, 0⟩, fun _ => rfl,
    Prod.ext (by decide +kernel : (rtosStart (some 8) 16000000 ⟨fun _ => 0, 0, 0, 0⟩).1 = none)
      rfl⟩

instance decidableInterruptAllowed (s : Interrupts) (action : InterruptAction) :
    Decidable (InterruptAllowed s action) :=
  match action with
  | .setPriority _ preemptPrio =>
      inferInstanceAs (Decidable (preemptPrio.toNat < 2 ^ nvicPrioBits))
  | .pend _ => isTrue trivial
  | .cpsid => isTrue trivial
  | .cpsie => isTrue trivial
  | .enter _ => isTrue trivial
  | .leave => isTrue trivial

theorem switch_before_tick :
    ∃ s : Interrupts, Exc.pendSv ∈ s.pending ∧ Exc.sysTick ∈ s.pending ∧ s.active = [] ∧
      (interruptStep s (.enter .pendSv)).isSome = true ∧
      interruptStep s (.enter .sysTick) = none := by
  obtain ⟨s, reached, found⟩ :=
    @exists_reachable_of_run Interrupts InterruptAction InterruptsStarted interruptStep
      InterruptAllowed (fun s action => decide (InterruptAllowed s action))
      (fun s => decide (Exc.pendSv ∈ s.pending ∧ Exc.sysTick ∈ s.pending ∧ s.active = [] ∧
        (interruptStep s (.enter .pendSv)).isSome = true))
      (fun _ _ checked => of_decide_eq_true checked)
      [.setPriority 28 9, .pend .sysTick, .enter .sysTick, .pend .pendSv, .pend .sysTick, .leave]
      startedInterrupts interruptsStarted_startedInterrupts (by decide +kernel)
  obtain ⟨switch, tick, idle, enters⟩ := of_decide_eq_true found
  refine ⟨s, switch, tick, idle, enters, ?_⟩
  cases taken : interruptStep s (.enter .sysTick) with
  | none => rfl
  | some after =>
      have order := (handlers_never_nest reached).2 .sysTick after taken switch
      exact absurd order (by decide)

end Runs

end MicrokernelRtos
