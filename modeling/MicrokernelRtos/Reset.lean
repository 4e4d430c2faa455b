/-
startup_stm32f407xx.s: `Reset_Handler` from the reset up to the call of `SystemInit`.

The linker decides where the sections lie.  Flash comes before the RAM, and the contents
of .data are in flash when the processor starts.  The handler copies them word by word.
-/

import Mathlib.Tactic.IntervalCases
import MicrokernelRtos.Library.Thumb
import MicrokernelRtos.Library.WordMemory

namespace MicrokernelRtos

open Words Thumb

/-! ### The code -/

/-- The symbols of linker.ld: a section is in its memory, and begins and ends with a
word. -/
structure Layout where
  sidata : Nat
  sdata : Nat
  edata : Nat
  sbss : Nat
  ebss : Nat
  flash : 0x08000000 ≤ sidata ∧ sidata + (edata - sdata) ≤ 0x08000000 + 1024 * 1024
  ram : 0x20000000 ≤ sdata ∧ ebss ≤ 0x20000000 + 128 * 1024
  order : sdata ≤ edata ∧ edata ≤ sbss ∧ sbss ≤ ebss
  dataAligned : 4 ∣ sdata ∧ 4 ∣ edata
  bssAligned : 4 ∣ sbss ∧ 4 ∣ ebss

/-- `ORIGIN(RAM) + LENGTH(RAM)` -/
def estack : BitVec 32 := 0x20020000#32

/-! The places of the labels, and of the call behind the last one. -/

def copyLoop : Nat := 9

def dataDone : Nat := 13

def bssBranch : Nat := 17

def bssLoop : Nat := 18

def bssDone : Nat := 21

def resetHandler (sidata sdata edata sbss ebss : BitVec 32) : List Instr :=
  [.ldrLiteral .r0 estack,
    .msrMsp .r0,
    .movs .r0 0,
    .msrControl .r0,
    .ldrLiteral .r0 sidata,
    .ldrLiteral .r1 sdata,
    .ldrLiteral .r2 edata,
    .subs .r2 .r2 (.reg .r1),
    .branch .le dataDone,
    .ldrPost .r3 .r0 4,
    .strPost .r3 .r1 4,
    .subs .r2 .r2 (.imm 4),
    .branch .gt copyLoop,
    .ldrLiteral .r0 sbss,
    .ldrLiteral .r1 ebss,
    .subs .r1 .r1 (.reg .r0),
    .movs .r2 0,
    .branch .le bssDone,
    .strPost .r2 .r0 4,
    .subs .r1 .r1 (.imm 4),
    .branch .gt bssLoop]

def Layout.code (layout : Layout) : List Instr :=
  resetHandler (BitVec.ofNat 32 layout.sidata) (BitVec.ofNat 32 layout.sdata)
    (BitVec.ofNat 32 layout.edata) (BitVec.ofNat 32 layout.sbss) (BitVec.ofNat 32 layout.ebss)

def Layout.dataWords (layout : Layout) : Nat := (layout.edata - layout.sdata) / 4

section Loops

variable {sidata sdata edata sbss ebss : BitVec 32} {m : Machine}

def copyRound (m : Machine) : Machine where
  reg := Function.update (Function.update (Function.update (Function.update m.reg
    .r0 (m.reg .r0 + 4)) .r3 (m.memory (m.reg .r0).toNat)) .r1 (m.reg .r1 + 4))
    .r2 (m.reg .r2 - 4)
  flags := subFlags (m.reg .r2) 4
  msp := m.msp
  control := m.control
  memory := Function.update m.memory (m.reg .r1).toNat (m.memory (m.reg .r0).toNat)
  pc := if (subFlags (m.reg .r2) 4).holds .gt then copyLoop else dataDone

theorem copyRound_runs (begins : m.pc = copyLoop) :
    steps (resetHandler sidata sdata edata sbss ebss) 4 m = some (copyRound m) := by
  cases m with
  | mk reg flags msp control memory pc =>
      cases begins
      rfl

theorem goesOn_iff {left : BitVec 32} {count : Nat} (words : left.toNat = 4 * (count + 1))
    (small : 4 * (count + 1) < 2 ^ 31) : (subFlags left 4).holds .gt = true ↔ count ≠ 0 := by
  have four : (4 : BitVec 32).toNat = 4 := rfl
  rw [subFlags_gt (by omega) (by omega), four]
  omega

theorem round_target {left : BitVec 32} {count : Nat} (top behind : Nat)
    (words : left.toNat = 4 * (count + 1)) (small : 4 * (count + 1) < 2 ^ 31) :
    (if (subFlags left 4).holds .gt then top else behind) = if count = 0 then behind else top := by
  have goesOn := goesOn_iff words small
  by_cases last : count = 0
  · rw [if_pos last, if_neg (mt goesOn.mp (not_not_intro last))]
  · rw [if_neg last, if_pos (goesOn.mpr last)]

theorem toNat_add_four {addr : BitVec 32} {place : Nat} (same : addr.toNat = place)
    (bounded : place + 4 < 2 ^ 32) : (addr + 4).toNat = place + 4 := by
  have four : (4 : BitVec 32).toNat = 4 := rfl
  rw [BitVec.toNat_add, same, four, Nat.mod_eq_of_lt bounded]

theorem toNat_sub_four {left : BitVec 32} {count : Nat} (words : left.toNat = 4 * (count + 1)) :
    (left - 4).toNat = 4 * count := by
  have four : (4 : BitVec 32).toNat = 4 := rfl
  have bound := left.isLt
  rw [BitVec.toNat_sub, words, four]
  omega

theorem copyLoop_copies {count src dst : Nat} (begins : m.pc = copyLoop)
    (source : (m.reg .r0).toNat = src) (target : (m.reg .r1).toNat = dst)
    (words : (m.reg .r2).toNat = 4 * (count + 1)) (small : 4 * (count + 1) < 2 ^ 31)
    (apart : src + 4 * (count + 1) ≤ dst) (bounded : dst + 4 * (count + 1) < 2 ^ 32) :
    ∃ after, steps (resetHandler sidata sdata edata sbss ebss) (4 * (count + 1)) m = some after ∧
      after.pc = dataDone ∧ after.msp = m.msp ∧ after.control = m.control ∧
      after.memory = store m.memory dst (load m.memory (count + 1) src) := by
  induction count generalizing m src dst with
  | zero =>
      refine ⟨copyRound m, copyRound_runs begins, ?_, rfl, rfl, ?_⟩
      · exact round_target copyLoop dataDone words small
      · rw [load_succ, store_cons, store_none]
        unfold copyRound
        simp only
        rw [source, target]
  | succ count ih =>
      have goesOn : (copyRound m).pc = copyLoop :=
        (round_target copyLoop dataDone words small).trans (if_neg (Nat.succ_ne_zero count))
      have nextSource : ((copyRound m).reg .r0).toNat = src + 4 :=
        toNat_add_four source (by omega)
      have nextTarget : ((copyRound m).reg .r1).toNat = dst + 4 :=
        toNat_add_four target (by omega)
      have nextWords : ((copyRound m).reg .r2).toNat = 4 * (count + 1) := toNat_sub_four words
      obtain ⟨after, runs, done, msp, control, memory⟩ :=
        ih goesOn nextSource nextTarget nextWords (by omega) (by omega) (by omega)
      refine ⟨after, ?_, done, msp, control, ?_⟩
      · have whole := steps_add (copyRound_runs begins) runs
        rw [show 4 * (count + 1 + 1) = 4 + 4 * (count + 1) by omega]
        exact whole
      · have written : (copyRound m).memory =
            Function.update m.memory dst (m.memory src) := by
          unfold copyRound
          simp only
          rw [source, target]
        have unread : load (copyRound m).memory (count + 1) (src + 4) =
            load m.memory (count + 1) (src + 4) := by
          rw [written]
          apply load_congr (update_agrees (Or.inr (show src + 4 + 4 * (count + 1) ≤ dst by omega)))
          · exact Nat.le_refl _
          · exact Nat.le_refl _
        rw [memory, unread, written, load_succ m.memory (count + 1) src, store_cons]

def clearRound (m : Machine) : Machine where
  reg := Function.update (Function.update m.reg .r0 (m.reg .r0 + 4)) .r1 (m.reg .r1 - 4)
  flags := subFlags (m.reg .r1) 4
  msp := m.msp
  control := m.control
  memory := Function.update m.memory (m.reg .r0).toNat (m.reg .r2)
  pc := if (subFlags (m.reg .r1) 4).holds .gt then bssLoop else bssDone

theorem clearRound_runs (begins : m.pc = bssLoop) :
    steps (resetHandler sidata sdata edata sbss ebss) 3 m = some (clearRound m) := by
  cases m with
  | mk reg flags msp control memory pc =>
      cases begins
      rfl

/-- Entered with the place and the size of a section, the loop writes r2 all over it. -/
theorem bssLoop_clears {count dst : Nat} (begins : m.pc = bssLoop)
    (target : (m.reg .r0).toNat = dst) (words : (m.reg .r1).toNat = 4 * (count + 1))
    (small : 4 * (count + 1) < 2 ^ 31) (bounded : dst + 4 * (count + 1) < 2 ^ 32) :
    ∃ after, steps (resetHandler sidata sdata edata sbss ebss) (3 * (count + 1)) m = some after ∧
      after.pc = bssDone ∧
      after.memory = store m.memory dst (fun _ : Fin (count + 1) => m.reg .r2) := by
  have split : ∀ size : Nat, (fun _ => m.reg .r2 : Fin (size + 1) → BitVec 32) =
      Fin.cons (m.reg .r2) (fun _ : Fin size => m.reg .r2) := by
    intro size
    funext index
    cases index using Fin.cases with
    | zero => rfl
    | succ index => rfl
  induction count generalizing m dst with
  | zero =>
      refine ⟨clearRound m, clearRound_runs begins, ?_, ?_⟩
      · exact round_target bssLoop bssDone words small
      · rw [split, store_cons, store_none]
        unfold clearRound
        simp only
        rw [target]
  | succ count ih =>
      have goesOn : (clearRound m).pc = bssLoop :=
        (round_target bssLoop bssDone words small).trans (if_neg (Nat.succ_ne_zero count))
      have nextTarget : ((clearRound m).reg .r0).toNat = dst + 4 :=
        toNat_add_four target (by omega)
      have nextWords : ((clearRound m).reg .r1).toNat = 4 * (count + 1) := toNat_sub_four words
      obtain ⟨after, runs, done, memory⟩ :=
        ih goesOn nextTarget nextWords (by omega) (by omega) split
      refine ⟨after, ?_, done, ?_⟩
      · have whole := steps_add (clearRound_runs begins) runs
        rw [show 3 * (count + 1 + 1) = 3 + 3 * (count + 1) by omega]
        exact whole
      · have written : (clearRound m).memory = Function.update m.memory dst (m.reg .r2) := by
          unfold clearRound
          simp only
          rw [target]
        rw [memory, written, split (count + 1), store_cons]
        rfl

end Loops

/-! ### The whole handler -/

section Handler

variable {sidata sdata edata sbss ebss : BitVec 32} {m before after : Machine} {count : Nat}

/-- The processor is in no round of the second loop.  Where it is about to go around that
loop its registers are those the loop needs, and the last result was zero. -/
structure Around (sbss ebss : BitVec 32) (m : Machine) : Prop where
  outside : m.pc < bssLoop ∨ bssDone ≤ m.pc
  start : dataDone < m.pc → m.pc ≤ bssBranch → m.reg .r0 = sbss
  stop : m.pc = dataDone + 2 → m.reg .r1 = ebss
  size : dataDone + 3 ≤ m.pc → m.pc ≤ bssBranch → m.reg .r1 = ebss - sbss
  zero : m.pc = bssBranch → m.reg .r2 = 0 ∧ m.flags.z = true

theorem Around.of_pc (elsewhere : m.pc ≤ dataDone ∨ bssDone ≤ m.pc) : Around sbss ebss m := by
  have low : m.pc ≤ 13 ∨ 21 ≤ m.pc := elsewhere
  constructor
  · change m.pc < 18 ∨ 21 ≤ m.pc
    omega
  · intro (above : 13 < m.pc) (below : m.pc ≤ 17)
    omega
  · intro (here : m.pc = 15)
    omega
  · intro (above : 16 ≤ m.pc) (below : m.pc ≤ 17)
    omega
  · intro (here : m.pc = 17)
    omega

theorem Around.of_branch {condition : Bool} {target next : Nat}
    (branch : m.pc = if condition then target else next) (taken : target ≤ dataDone)
    (straight : next ≤ dataDone) : Around sbss ebss m := by
  apply Around.of_pc
  rw [branch]
  split
  · exact Or.inl taken
  · exact Or.inl straight

/-- `movs r2, #0` sets the flag that the branch behind it tests. -/
theorem around_step (around : Around sbss ebss before)
    (taken : Thumb.step (resetHandler sidata sdata edata sbss ebss) before = some after) :
    Around sbss ebss after := by
  obtain ⟨outside, start, stop, size, zero⟩ := around
  cases before with
  | mk reg flags msp control memory pc =>
      obtain ⟨instr, fetched, executed⟩ := Option.map_eq_some_iff.mp taken
      have inCode : pc < bssDone := (List.getElem?_eq_some_iff.mp fetched).1
      have early : pc < bssLoop := outside.resolve_right (Nat.not_le.mpr inCode)
      unfold bssLoop at early
      interval_cases pc
      all_goals
        cases fetched
        cases executed
      all_goals try exact Around.of_pc (Or.inl (of_decide_eq_true rfl))
      all_goals try exact Around.of_branch rfl (of_decide_eq_true rfl) (of_decide_eq_true rfl)
      · exact ⟨Or.inl (of_decide_eq_true rfl), fun _ _ => rfl, nofun,
          fun above => absurd above (of_decide_eq_false rfl), nofun⟩
      · have isStart : reg .r0 = sbss := start (of_decide_eq_true rfl) (of_decide_eq_true rfl)
        exact ⟨Or.inl (of_decide_eq_true rfl), fun _ _ => isStart, fun _ => rfl,
          fun above => absurd above (of_decide_eq_false rfl), nofun⟩
      · have isStart : reg .r0 = sbss := start (of_decide_eq_true rfl) (of_decide_eq_true rfl)
        have isStop : reg .r1 = ebss := stop rfl
        refine ⟨Or.inl (of_decide_eq_true rfl), fun _ _ => isStart, nofun, fun _ _ => ?_, nofun⟩
        change reg .r1 - reg .r0 = ebss - sbss
        rw [isStart, isStop]
      · have isStart : reg .r0 = sbss := start (of_decide_eq_true rfl) (of_decide_eq_true rfl)
        have isSize : reg .r1 = ebss - sbss :=
          size (of_decide_eq_true rfl) (of_decide_eq_true rfl)
        exact ⟨Or.inl (of_decide_eq_true rfl), fun _ _ => isStart, nofun, fun _ _ => isSize,
          fun _ => ⟨rfl, rfl⟩⟩
      · have branches : flags.holds .le = true := by
          rw [Flags.holds, (zero rfl).2, Bool.true_or]
        have beyond : (exec { reg, flags, msp, control, memory, pc := 17 }
            (.branch .le bssDone)).pc = bssDone := if_pos branches
        exact Around.of_pc (Or.inr (Nat.le_of_eq beyond.symm))

/-- The loop that clears .bss is not entered, wherever the sections are. -/
theorem bssLoop_skipped (begins : m.pc = 0)
    (runs : steps (resetHandler sidata sdata edata sbss ebss) count m = some after) :
    Around sbss ebss after := by
  have around : Around sbss ebss m := by
    apply Around.of_pc
    rw [begins]
    decide
  exact steps_invariant (fun _ _ => around_step) around runs

theorem entered_runs (begins : m.pc = 0) :
    ∃ first, steps (resetHandler sidata sdata edata sbss ebss) 9 m = some first ∧
      first.pc = (if (subFlags edata sdata).holds .le then dataDone else copyLoop) ∧
      first.msp = estack ∧ first.control = 0 ∧ first.memory = m.memory ∧
      first.reg .r0 = sidata ∧ first.reg .r1 = sdata ∧ first.reg .r2 = edata - sdata := by
  cases m with
  | mk reg flags msp control memory pc =>
      cases begins
      exact ⟨_, rfl, rfl, rfl, rfl, rfl, rfl, rfl, rfl⟩

theorem around_runs (begins : m.pc = dataDone) :
    ∃ last, steps (resetHandler sidata sdata edata sbss ebss) 5 m = some last ∧
      last.pc = bssDone ∧ last.msp = m.msp ∧ last.control = m.control ∧
      last.memory = m.memory := by
  cases m with
  | mk reg flags msp control memory pc =>
      cases begins
      exact ⟨_, rfl, rfl, rfl, rfl, rfl⟩

end Handler

section Sections

variable {m : Machine}

theorem toNat_symbol {place : Nat} (inMemory : place ≤ 0x20020000) :
    (BitVec.ofNat 32 place).toNat = place := by
  rw [BitVec.toNat_ofNat]
  omega

theorem toNat_size {low high : Nat} (order : low ≤ high) (inMemory : high ≤ 0x20020000) :
    (BitVec.ofNat 32 high - BitVec.ofNat 32 low).toNat = high - low := by
  rw [BitVec.toNat_sub, toNat_symbol inMemory, toNat_symbol (Nat.le_trans order inMemory)]
  omega

theorem Layout.below (layout : Layout) : layout.ebss ≤ 0x20020000 := layout.ram.2

theorem Layout.dataBytes (layout : Layout) :
    layout.edata - layout.sdata = 4 * layout.dataWords := by
  have aligned := layout.dataAligned
  unfold Layout.dataWords
  omega

theorem copies (layout : Layout) (begins : m.pc = 0) :
    ∃ count middle, steps layout.code count m = some middle ∧ middle.pc = dataDone ∧
      middle.msp = estack ∧ middle.control = 0 ∧
      middle.memory =
        store m.memory layout.sdata (load m.memory layout.dataWords layout.sidata) := by
  have bytes := layout.dataBytes
  have below := layout.below
  have flash := layout.flash
  have ram := layout.ram
  have order := layout.order
  have start := toNat_symbol (show layout.sdata ≤ 0x20020000 by omega)
  have stop := toNat_symbol (show layout.edata ≤ 0x20020000 by omega)
  have source := toNat_symbol (show layout.sidata ≤ 0x20020000 by omega)
  obtain ⟨first, entered, place, msp, control, memory, r0, r1, r2⟩ :=
    @entered_runs (BitVec.ofNat 32 layout.sidata) (BitVec.ofNat 32 layout.sdata)
      (BitVec.ofNat 32 layout.edata) (BitVec.ofNat 32 layout.sbss)
      (BitVec.ofNat 32 layout.ebss) m begins
  have skips : (subFlags (BitVec.ofNat 32 layout.edata) (BitVec.ofNat 32 layout.sdata)).holds
      .le = true ↔ layout.edata ≤ layout.sdata := by
    rw [subFlags_le (by omega) (by omega), start, stop]
  cases words : layout.dataWords with
  | zero =>
      refine ⟨9, first, entered, ?_, msp, control, ?_⟩
      · rw [place, if_pos]
        exact skips.mpr (by omega)
      · rw [memory, store_none]
  | succ count =>
      have loops : first.pc = copyLoop := by
        rw [place, if_neg]
        intro skipped
        have empty := skips.mp skipped
        omega
      have size := toNat_size order.1 (show layout.edata ≤ 0x20020000 by omega)
      obtain ⟨middle, copied, done, keepsMsp, keepsControl, written⟩ :=
        @copyLoop_copies (BitVec.ofNat 32 layout.sidata) (BitVec.ofNat 32 layout.sdata)
          (BitVec.ofNat 32 layout.edata) (BitVec.ofNat 32 layout.sbss)
          (BitVec.ofNat 32 layout.ebss) first count layout.sidata layout.sdata loops
          (by rw [r0, source]) (by rw [r1, start]) (by rw [r2, size, bytes, words]) (by omega)
          (by omega) (by omega)
      refine ⟨_, middle, steps_add entered copied, done, keepsMsp.trans msp,
        keepsControl.trans control, ?_⟩
      rw [written, memory]

end Sections

/-- `Reset_Handler` comes to the call of `SystemInit` with .data copied from flash and
every other word as it was. -/
theorem reset_copies_data (layout : Layout) (m : Machine) (begins : m.pc = 0) :
    ∃ count after, steps layout.code count m = some after ∧ after.pc = bssDone ∧
      after.msp = estack ∧ after.control = 0 ∧
      after.memory =
        store m.memory layout.sdata (load m.memory layout.dataWords layout.sidata) := by
  obtain ⟨count, middle, copied, place, msp, control, memory⟩ := copies layout begins
  obtain ⟨last, around, done, keepsMsp, keepsControl, kept⟩ :=
    @around_runs (BitVec.ofNat 32 layout.sidata) (BitVec.ofNat 32 layout.sdata)
      (BitVec.ofNat 32 layout.edata) (BitVec.ofNat 32 layout.sbss)
      (BitVec.ofNat 32 layout.ebss) middle place
  exact ⟨_, last, steps_add copied around, done, keepsMsp.trans msp,
    keepsControl.trans control, kept.trans memory⟩

def smallLayout : Layout where
  sidata := 0x08001000
  sdata := 0x20000000
  edata := 0x20000008
  sbss := 0x20000008
  ebss := 0x20000018
  flash := by decide
  ram := by decide
  order := by decide
  dataAligned := by decide
  bssAligned := by decide

def powerUp : Machine where
  reg := fun _ => 0
  flags := { n := false, z := false, c := false, v := false }
  msp := 0
  control := 0
  memory := fun place => BitVec.ofNat 32 place
  pc := 0

theorem reset_copies_small_data :
    ∃ count after, steps smallLayout.code count powerUp = some after ∧ after.pc = bssDone ∧
      after.memory 0x20000004 = 0x08001004#32 ∧ after.memory 0x20000008 = 0x20000008#32 := by
  obtain ⟨count, after, runs, done, _, _, memory⟩ := reset_copies_data smallLayout powerUp rfl
  refine ⟨count, after, runs, done, ?_, ?_⟩
  · rw [memory]
    decide
  · rw [memory]
    decide

def Layout.bssWords (layout : Layout) : Nat := (layout.ebss - layout.sbss) / 4

/-- The processor never comes into the loop that clears .bss.  Where it takes the branch
around that loop and .bss is not empty, the loop would have cleared it and nothing else. -/
theorem bss_loop_never_entered (layout : Layout) (m before : Machine) (count : Nat)
    (begins : m.pc = 0) (runs : steps layout.code count m = some before) :
    (before.pc < bssLoop ∨ bssDone ≤ before.pc) ∧
      (before.pc = bssBranch → layout.sbss < layout.ebss → ∃ more cleared,
        steps layout.code more { before with pc := bssLoop } = some cleared ∧
        cleared.pc = bssDone ∧
        cleared.memory =
          store before.memory layout.sbss (fun _ : Fin layout.bssWords => (0 : BitVec 32))) := by
  have around := bssLoop_skipped begins runs
  refine ⟨around.outside, fun here nonempty => ?_⟩
  have below := layout.below
  have order := layout.order
  have aligned := layout.bssAligned
  obtain ⟨size, words⟩ : ∃ size, layout.bssWords = size + 1 := by
    apply Nat.exists_eq_add_one_of_ne_zero
    unfold Layout.bssWords
    omega
  have bytes : layout.ebss - layout.sbss = 4 * (size + 1) := by
    unfold Layout.bssWords at words
    omega
  have atBranch : dataDone + 3 ≤ before.pc ∧ before.pc ≤ bssBranch := by
    rw [here]
    decide
  have start : (before.reg .r0).toNat = layout.sbss := by
    rw [around.start (Nat.lt_of_lt_of_le (by decide) atBranch.1) atBranch.2]
    exact toNat_symbol (by omega)
  have left : (before.reg .r1).toNat = 4 * (size + 1) := by
    rw [around.size atBranch.1 atBranch.2, toNat_size order.2.2 below, bytes]
  obtain ⟨cleared, clears, done, memory⟩ :=
    @bssLoop_clears (BitVec.ofNat 32 layout.sidata) (BitVec.ofNat 32 layout.sdata)
      (BitVec.ofNat 32 layout.edata) (BitVec.ofNat 32 layout.sbss)
      (BitVec.ofNat 32 layout.ebss) { before with pc := bssLoop } size layout.sbss rfl start left
      (by omega) (by omega)
  refine ⟨_, cleared, clears, done, ?_⟩
  rw [memory, words]
  simp only [(around.zero here).1]

theorem small_bss_not_cleared :
    ∃ before after, steps smallLayout.code 21 powerUp = some before ∧ before.pc = bssBranch ∧
      Thumb.step smallLayout.code before = some after ∧ after.pc = bssDone ∧
      ∃ more cleared, steps smallLayout.code more { before with pc := bssLoop } = some cleared ∧
        cleared.pc = bssDone ∧ cleared.memory 0x20000014 = 0 := by
  obtain ⟨before, runs, here, after, taken, done⟩ : ∃ before,
      steps smallLayout.code 21 powerUp = some before ∧ before.pc = bssBranch ∧
      ∃ after, Thumb.step smallLayout.code before = some after ∧ after.pc = bssDone :=
    ⟨_, rfl, by decide, _, rfl, by decide⟩
  obtain ⟨more, cleared, clears, ends, memory⟩ :=
    (bss_loop_never_entered smallLayout powerUp before 21 rfl runs).2 here (by decide)
  refine ⟨before, after, runs, here, taken, done, more, cleared, clears, ends, ?_⟩
  rw [memory]
  rfl

end MicrokernelRtos
