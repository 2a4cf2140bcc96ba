import KernelNES.Emulator.Arithmetic

/-!
# Emulator — Branches

The eight branches are four pairs, one branch of each taken when a flag is clear and one when it is
set.  A step either takes its branch or goes on behind it (`BranchOutcome`), and the two of a pair
never do the same.  The rows of `BVC` and `BCC` count three cycles where those of the others count
two (`branches_complement_iff`).
-/

namespace KernelNES.Emulator
open KernelNES.Lib

/-- `BNE` and `BEQ`, `BPL` and `BMI`, `BVC` and `BVS`, `BCC` and `BCS`. -/
inductive BranchPair where
  | zero
  | negative
  | overflow
  | carry
  deriving DecidableEq, Repr

namespace BranchPair

/-- The flag the two branches read. -/
def flag : BranchPair → U8
  | zero     => flagZero
  | negative => flagNegative
  | overflow => flagOverflow
  | carry    => flagCarry

/-- The opcode taken when the flag is `wanted`. -/
def opcode : BranchPair → (wanted : Bool) → U8
  | zero, false     => 0xD0
  | zero, true      => 0xF0
  | negative, false => 0x10
  | negative, true  => 0x30
  | overflow, false => 0x50
  | overflow, true  => 0x70
  | carry, false    => 0x90
  | carry, true     => 0xB0

/-- Each opcode of a pair is a branch on its flag. -/
theorem decode_opcode (pair : BranchPair) (wanted : Bool) :
    decode (pair.opcode wanted) = some (.branch pair.flag wanted) := by
  cases pair <;> cases wanted <;> rfl

/-- The cycles of the opcode's row. -/
theorem cycles (pair : BranchPair) (wanted : Bool) :
    (opcodeTable (pair.opcode wanted)).cycles =
      if (pair = overflow ∨ pair = carry) ∧ wanted = false then 3 else 2 := by
  cases pair <;> cases wanted <;> decide +kernel

end BranchPair

/-- The offset of the branch at the program counter. -/
def Machine.branchOffset (m : Machine) : U8 := m.peek (m.registers.programCounter + 1)

/-- The step from `m` to `m'` took its branch, or did not. -/
structure BranchOutcome (taken : Bool) (m m' : Machine) : Prop where
  registers : m'.registers =
    { m.registers with
      programCounter := BitVec.ofInt 16 (m.registers.programCounter.toNat + 2 +
        if taken then m.branchOffset.toInt else 0) }
  cycles : m'.totalCPUCycles = m.totalCPUCycles + if taken then 3 else 2
  RAM : m'.RAM = m.RAM

/-- The sign extension by hand is the byte read as a signed one. -/
theorem signedValue_eq (offset : U8) :
    (if offset ≥ 0x80 then (offset.toNat : Int) - 256 else offset.toNat) = offset.toInt := by
  rw [toInt_of_msb]
  simp only [msb_iff, ge_iff_le, BitVec.le_def]
  rfl

/-- A sum in `int`, cut to 16 bits. -/
theorem ofInt_toNat_add (pc : U16) (k : Int) :
    BitVec.ofInt 16 (pc.toNat + k) = pc + BitVec.ofInt 16 k := by
  rw [BitVec.ofInt_add, BitVec.ofInt_natCast, BitVec.ofNat_toNat, BitVec.setWidth_eq]

/-- The target of a branch, counted from behind its operand. -/
theorem ofInt_behind (pc : U16) (k : Int) :
    BitVec.ofInt 16 (pc.toNat + 2 + k) = pc + 1 + 1 + BitVec.ofInt 16 k := by
  rw [Int.add_assoc, ofInt_toNat_add, BitVec.ofInt_add, BitVec.add_assoc pc, BitVec.add_assoc pc]
  rfl

/-- The branch is taken. -/
def Machine.takes (m : Machine) (pair : BranchPair) (wanted : Bool) : Bool :=
  decide (hasFlag m.registers.flags pair.flag) = wanted

section
variable (order : EvalOrder) (answer : Addr) {m : Machine} {pair : BranchPair} {wanted : Bool}

/-- **One branch.**  A taken branch costs one cycle more than its row says. -/
theorem branch_step (h : m.nextOpcode = pair.opcode wanted) :
    (emulateCPU order answer m).2.registers =
        { m.registers with
          programCounter := BitVec.ofInt 16 (m.registers.programCounter.toNat + 2 +
            if m.takes pair wanted then m.branchOffset.toInt else 0) } ∧
      (emulateCPU order answer m).2.totalCPUCycles =
        m.totalCPUCycles + (opcodeTable (pair.opcode wanted)).cycles +
          (if m.takes pair wanted then 1 else 0) ∧
      (emulateCPU order answer m).2.RAM = m.RAM := by
  rw [emulateCPU_of_decode (h ▸ pair.decode_opcode wanted), h]
  have hrun := branchBody_run pair.flag wanted (m.fetched answer)
  have htest : m.takes pair wanted = true ↔
      decide ((m.fetched answer).registers.flags &&& pair.flag ≠ 0) = wanted := decide_eq_true_iff
  show ((branchBody pair.flag wanted (m.fetched answer)).2.tick _).registers = _ ∧
    ((branchBody pair.flag wanted (m.fetched answer)).2.tick _).totalCPUCycles = _ ∧
    ((branchBody pair.flag wanted (m.fetched answer)).2.tick _).RAM = _
  rw [hrun]
  by_cases ht : m.takes pair wanted = true
  · rw [if_pos (htest.mp ht), if_pos ht, if_pos ht, ofInt_behind, ← signedValue_eq,
      ← ofInt_toNat_add]
    refine ⟨rfl, ?_, rfl⟩
    show m.totalCPUCycles + 1 + _ = _
    omega
  · rw [if_neg (mt htest.mpr ht), if_neg ht, if_neg ht, ofInt_behind]
    refine ⟨congrArg (fun pc => { m.registers with programCounter := pc }) ?_,
      (Int.add_zero _).symm, rfl⟩
    exact (BitVec.add_zero _).symm

end

/-- Of the two branches of a pair, in states with the same flags, one is taken. -/
theorem takes_complement {m n : Machine} (h : n.registers.flags = m.registers.flags)
    (pair : BranchPair) : n.takes pair true = !m.takes pair false := by
  unfold Machine.takes
  rw [h]
  cases decide (hasFlag m.registers.flags pair.flag) <;> rfl

/-- **Complementary branches are exact complements**, exactly for the pairs whose rows both have the
two cycles of a branch: not for `BVC` and `BVS`, and not for `BCC` and `BCS`. -/
theorem branches_complement_iff {pair : BranchPair} {m n : Machine}
    (hm : m.nextOpcode = pair.opcode false) (hn : n.nextOpcode = pair.opcode true)
    (hregs : n.registers = m.registers) (order : EvalOrder) (answer answer' : Addr) :
    (∃ taken, BranchOutcome taken m (emulateCPU order answer m).2 ∧
        BranchOutcome (!taken) n (emulateCPU order answer' n).2) ↔
      pair = .zero ∨ pair = .negative := by
  obtain ⟨hrm, hcm, hRm⟩ := branch_step order answer hm
  obtain ⟨hrn, hcn, hRn⟩ := branch_step order answer' hn
  have htakes := takes_complement (congrArg Registers.flags hregs) pair
  rw [htakes] at hrn hcn
  rw [pair.cycles] at hcm hcn
  generalize m.takes pair false = t at hrm hcm hrn hcn
  constructor
  · rintro ⟨taken, hom, hon⟩
    -- between them the two cost five cycles
    have hm := hom.cycles.symm.trans hcm
    have hn := hon.cycles.symm.trans hcn
    clear hrm hcm hrn hcn hom hon
    cases pair <;> cases taken <;> cases t <;> simp at hm hn ⊢
  · intro hpair
    refine ⟨t, ⟨hrm, ?_, hRm⟩, ⟨hrn, ?_, hRn⟩⟩
    · rw [hcm]
      rcases hpair with rfl | rfl <;> cases t <;> simp <;> omega
    · rw [hcn]
      rcases hpair with rfl | rfl <;> cases t <;> simp <;> omega

/-- About to run a branch by `5`, with the given flags. -/
def branchMachine (opcode flags : U8) : Machine :=
  .ofProgram [opcode, 5] ⟨0, 0, 0, flags, 0xFD, 0⟩

/-- `BNE` and `BEQ`, with zero set. -/
theorem branches_complement_bne :
    ∃ taken, BranchOutcome taken (branchMachine 0xD0 0x02)
        (emulateCPU .leftFirst 1 (branchMachine 0xD0 0x02)).2 ∧
      BranchOutcome (!taken) (branchMachine 0xF0 0x02)
        (emulateCPU .leftFirst 1 (branchMachine 0xF0 0x02)).2 := by
  have hm : (branchMachine 0xD0 0x02).nextOpcode = BranchPair.zero.opcode false := by decide +kernel
  have hn : (branchMachine 0xF0 0x02).nextOpcode = BranchPair.zero.opcode true := by decide +kernel
  exact (branches_complement_iff hm hn rfl .leftFirst 1 1).mpr (.inl rfl)

/-- `BVC` with overflow set: it is not taken, and costs the three cycles of its row. -/
theorem bvc_costs_three :
    (branchMachine 0x50 0x40).nextOpcode = BranchPair.overflow.opcode false ∧
      (branchMachine 0x70 0x40).nextOpcode = BranchPair.overflow.opcode true ∧
      ¬ ∃ taken, BranchOutcome taken (branchMachine 0x50 0x40)
          (emulateCPU .leftFirst 1 (branchMachine 0x50 0x40)).2 ∧
        BranchOutcome (!taken) (branchMachine 0x70 0x40)
          (emulateCPU .leftFirst 1 (branchMachine 0x70 0x40)).2 := by
  refine ⟨by decide +kernel, by decide +kernel, ?_⟩
  rintro ⟨taken, hc, hs⟩
  cases taken
  · exact absurd hc.cycles (by decide +kernel)
  · exact absurd hs.cycles (by decide +kernel)

end KernelNES.Emulator
