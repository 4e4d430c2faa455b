/-
A few instructions of a processor with condition flags, and runs of straight code.

A program is a list, and the program counter a place in it.  The memory consists of
words; an access goes to the word at an address, as it does for an address that is a
multiple of four.  A conditional branch behind a subtraction compares two signed
numbers.
-/

import Mathlib.Data.BitVec
import Mathlib.Logic.Function.Basic

namespace MicrokernelRtos.Thumb

inductive Reg where
  | r0 | r1 | r2 | r3
  deriving DecidableEq

structure Flags where
  n : Bool
  z : Bool
  c : Bool
  v : Bool

structure Machine where
  reg : Reg → BitVec 32
  flags : Flags
  msp : BitVec 32
  control : BitVec 32
  memory : Nat → BitVec 32
  pc : Nat

inductive Cond where
  | le | gt

inductive Operand where
  | reg (source : Reg)
  | imm (value : BitVec 32)

/-- The accesses add the offset to the base register behind the access. -/
inductive Instr where
  | ldrLiteral (dest : Reg) (value : BitVec 32)
  | movs (dest : Reg) (value : BitVec 32)
  | msrMsp (source : Reg)
  | msrControl (source : Reg)
  | subs (dest left : Reg) (right : Operand)
  | ldrPost (dest base : Reg) (offset : BitVec 32)
  | strPost (source base : Reg) (offset : BitVec 32)
  | branch (cond : Cond) (target : Nat)

def subFlags (a b : BitVec 32) : Flags where
  n := (a - b).msb
  z := decide (a - b = 0)
  c := decide (b.toNat ≤ a.toNat)
  v := a.msb != b.msb && (a - b).msb != a.msb

def Flags.holds (flags : Flags) : Cond → Bool
  | .le => flags.z || flags.n != flags.v
  | .gt => !flags.z && flags.n == flags.v

def Machine.operand (m : Machine) : Operand → BitVec 32
  | .reg source => m.reg source
  | .imm value => value

def Machine.put (m : Machine) (dest : Reg) (value : BitVec 32) : Machine :=
  { m with reg := Function.update m.reg dest value, pc := m.pc + 1 }

def exec (m : Machine) : Instr → Machine
  | .ldrLiteral dest value => m.put dest value
  | .movs dest value =>
      { m.put dest value with
        flags := { m.flags with n := value.msb, z := decide (value = 0) } }
  | .msrMsp source => { m with msp := m.reg source, pc := m.pc + 1 }
  | .msrControl source => { m with control := m.reg source, pc := m.pc + 1 }
  | .subs dest left right =>
      { m.put dest (m.reg left - m.operand right) with
        flags := subFlags (m.reg left) (m.operand right) }
  | .ldrPost dest base offset =>
      { (m.put base (m.reg base + offset)).put dest (m.memory (m.reg base).toNat) with
        pc := m.pc + 1 }
  | .strPost source base offset =>
      { m.put base (m.reg base + offset) with
        memory := Function.update m.memory (m.reg base).toNat (m.reg source) }
  | .branch cond target => { m with pc := if m.flags.holds cond then target else m.pc + 1 }

def step (program : List Instr) (m : Machine) : Option Machine := program[m.pc]?.map (exec m)

def steps (program : List Instr) : Nat → Machine → Option Machine
  | 0, m => some m
  | count + 1, m => (step program m).bind (steps program count)

variable {program : List Instr} {m middle last : Machine} {first second : Nat}

theorem steps_add (reaches : steps program first m = some middle)
    (goesOn : steps program second middle = some last) :
    steps program (first + second) m = some last := by
  induction first generalizing m with
  | zero =>
      cases reaches
      rw [Nat.zero_add]
      exact goesOn
  | succ first ih =>
      obtain ⟨next, taken, rest⟩ := Option.bind_eq_some_iff.mp reaches
      rw [Nat.add_right_comm, steps, taken, Option.bind_some]
      exact ih rest

theorem steps_invariant {holds : Machine → Prop}
    (kept : ∀ before after, holds before → step program before = some after → holds after)
    (begins : holds m) (reaches : steps program first m = some last) : holds last := by
  induction first generalizing m with
  | zero =>
      cases reaches
      exact begins
  | succ first ih =>
      obtain ⟨next, taken, rest⟩ := Option.bind_eq_some_iff.mp reaches
      exact ih (kept m next begins taken) rest

/-! ### Branches behind a subtraction -/

theorem msb_iff (a : BitVec 32) : a.msb = true ↔ 2 ^ 31 ≤ a.toNat := by
  rw [BitVec.msb_eq_decide, decide_eq_true_iff]

theorem holds_gt (flags : Flags) : flags.holds .gt = !flags.holds .le := by
  cases flags with
  | mk n z c v =>
      cases n <;> cases z <;> cases v <;> rfl

theorem subFlags_le {a b : BitVec 32} (small : a.toNat < 2 ^ 31) (other : b.toNat < 2 ^ 31) :
    (subFlags a b).holds .le = true ↔ a.toNat ≤ b.toNat := by
  have aSign : a.msb = false := by
    rw [← Bool.not_eq_true, msb_iff]
    omega
  have bSign : b.msb = false := by
    rw [← Bool.not_eq_true, msb_iff]
    omega
  have zero : a - b = 0 ↔ a.toNat = b.toNat := by
    rw [sub_eq_zero, BitVec.toNat_inj]
  have sign : (a - b).msb = true ↔ a.toNat < b.toNat := by
    rw [msb_iff, BitVec.toNat_sub]
    omega
  simp only [Flags.holds, subFlags, aSign, bSign, bne_self_eq_false, Bool.false_and,
    Bool.bne_false, Bool.or_eq_true, decide_eq_true_eq, zero, sign]
  omega

theorem subFlags_gt {a b : BitVec 32} (small : a.toNat < 2 ^ 31) (other : b.toNat < 2 ^ 31) :
    (subFlags a b).holds .gt = true ↔ b.toNat < a.toNat := by
  rw [holds_gt, Bool.not_eq_true', ← Bool.not_eq_true, subFlags_le small other, Nat.not_le]

end MicrokernelRtos.Thumb
