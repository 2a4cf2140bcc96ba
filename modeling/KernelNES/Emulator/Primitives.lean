import KernelNES.Emulator.Instruction

/-!
# Emulator — Primitives

Every case of the `switch` is a sequence of accesses to registers and memory.  A property of
computations that sequences keep and the accesses have is a property of every case
(`PrimitiveRule.instr`).  All cases but `PHP` and `BRK` only test the status register for flags, so
for them it is enough that the property holds of such tests (`StatusTestRule.instr`).
-/

namespace KernelNES.Emulator
open KernelNES.Lib

/-- The bits of the status register that are flags. -/
def statusFlags : List U8 :=
  [flagCarry, flagZero, flagInterruptDisable, flagDecimal, flagOverflow, flagNegative]

/-- `P` holds of the accesses but `set_status_register`, and of a sequence when it holds of its
parts. -/
structure PrimitiveRule (P : ∀ {α : Type}, CPU α → Prop) : Prop where
  pure : ∀ {α : Type} (a : α), P (pure a : CPU α)
  bind : ∀ {α β : Type} {x : CPU α} {y : α → CPU β}, P x → (∀ a, P (y a)) → P (x >>= y)
  regGet : ∀ reg : Reg, P reg.get
  regSet : ∀ (reg : Reg) (v : U8), P (reg.set v)
  logicOp : ∀ (op : LogicOp) (v : U8), P (op.run v)
  regStatus : P regStatus
  setStatusFlag : ∀ flag ∈ statusFlags, ∀ condition, P (setStatusFlag flag condition)
  stackPointer : P stackPointer
  setSP : ∀ v, P (setSP v)
  programCounter : P programCounter
  incrementPC : P incrementPC
  setPC : ∀ a, P (setPC a)
  readPC : P readPC
  readIncrementPC : P readIncrementPC
  emuRead : ∀ a, P (emuRead a)
  emuWrite : ∀ a v, P (emuWrite a v)
  pushStack : ∀ v, P (pushStack v)
  pullStack : P pullStack
  setAddress : ∀ a, P (modifyLog fun s => s.tailLogSetAddress a)
  setIndexedAddress : ∀ a, P (modifyLog fun s => s.tailLogSetIndexedAddress a)
  halt : P (modify fun m => { m with cpuHalted := true })
  cycle : P (modify fun m => { m with totalCPUCycles := m.totalCPUCycles + 1 })

/-- The flags that cases test. -/
def testedFlags : List U8 := [flagCarry, flagZero, flagOverflow, flagNegative]

/-- The bits of the tested flags. -/
def testedMask : U8 := 0xC3

/-- The same, when `P` is only known of computations that read the status register and go on by what
its tested flags are. -/
structure StatusTestRule (P : ∀ {α : Type}, CPU α → Prop) : Prop where
  pure : ∀ {α : Type} (a : α), P (pure a : CPU α)
  bind : ∀ {α β : Type} {x : CPU α} {y : α → CPU β}, P x → (∀ a, P (y a)) → P (x >>= y)
  regGet : ∀ reg : Reg, P reg.get
  regSet : ∀ (reg : Reg) (v : U8), P (reg.set v)
  logicOp : ∀ (op : LogicOp) (v : U8), P (op.run v)
  testStatus : ∀ {α : Type} {y : U8 → CPU α}, y.FactorsThrough (· &&& testedMask) →
    (∀ v, P (y v)) → P (Emulator.regStatus >>= y)
  setStatusFlag : ∀ flag ∈ statusFlags, ∀ condition, P (setStatusFlag flag condition)
  stackPointer : P stackPointer
  setSP : ∀ v, P (setSP v)
  programCounter : P programCounter
  incrementPC : P incrementPC
  setPC : ∀ a, P (setPC a)
  readPC : P readPC
  readIncrementPC : P readIncrementPC
  emuRead : ∀ a, P (emuRead a)
  emuWrite : ∀ a v, P (emuWrite a v)
  pushStack : ∀ v, P (pushStack v)
  pullStack : P pullStack
  setAddress : ∀ a, P (modifyLog fun s => s.tailLogSetAddress a)
  setIndexedAddress : ∀ a, P (modifyLog fun s => s.tailLogSetIndexedAddress a)
  halt : P (modify fun m => { m with cpuHalted := true })
  cycle : P (modify fun m => { m with totalCPUCycles := m.totalCPUCycles + 1 })

/-- A rule for the primitives covers the tests of the flags. -/
theorem PrimitiveRule.tests {P : ∀ {α : Type}, CPU α → Prop} (h : PrimitiveRule P) :
    StatusTestRule P :=
  { h with testStatus := fun _ hy => h.bind h.regStatus hy }

/-- The cases that set the status register to a byte of the stack. -/
def Instr.pullsStatus : Instr → Bool
  | .plp | .rti => true
  | _ => false

/-- The flag a case is there to set. -/
def Instr.setsFlag : Instr → Option U8
  | .setFlag flag _ => some flag
  | _ => none

/-- The flag a case branches on. -/
def Instr.branchesOn : Instr → Option U8
  | .branch flag _ => some flag
  | _ => none

/-- The cases that push the status register. -/
def Instr.pushesStatus : Instr → Bool
  | .php | .brk => true
  | _ => false

/-- The cases that set a flag set one of the six. -/
theorem setFlag_of_decode {opcode : U8} {flag : U8} {value : Bool}
    (h : decode opcode = some (.setFlag flag value)) : flag ∈ statusFlags := by
  have hall : ∀ p ∈ switchCases, p.2.setsFlag.all (· ∈ statusFlags) = true := by decide +kernel
  exact decide_eq_true_iff.mp (hall _ (mem_switchCases h))

/-- The branches test four of them. -/
theorem branch_of_decode {opcode : U8} {flag : U8} {wanted : Bool}
    (h : decode opcode = some (.branch flag wanted)) : flag ∈ testedFlags := by
  have hall : ∀ p ∈ switchCases, p.2.branchesOn.all (· ∈ testedFlags) = true := by decide +kernel
  exact decide_eq_true_iff.mp (hall _ (mem_switchCases h))

/-- `PHP` and `BRK` alone push the status. -/
theorem pushesStatus_of_decode {opcode : U8} {instr : Instr} (h : decode opcode = some instr)
    (hop : opcode ≠ 0x08 ∧ opcode ≠ 0x00) : instr.pushesStatus = false := by
  have hall : ∀ p ∈ switchCases, p.1 ≠ 0x08 ∧ p.1 ≠ 0x00 → p.2.pushesStatus = false := by
    decide +kernel
  exact hall _ (mem_switchCases h) hop

theorem carry_tested : flagCarry ∈ testedFlags := by decide

/-- Statuses with the same tested bits have the same tested flags. -/
theorem testedFlag_congr {flag v w : U8} (hflag : flag ∈ testedFlags)
    (h : v &&& testedMask = w &&& testedMask) : v &&& flag = w &&& flag := by
  have hmask : ∀ flag ∈ testedFlags, testedMask &&& flag = flag := by decide
  rw [← hmask flag hflag, ← BitVec.and_assoc, ← BitVec.and_assoc, h]

/-- The borrow of `SBC` depends on the carry flag alone. -/
theorem not_and_carry {v w : U8} (h : v &&& flagCarry = w &&& flagCarry) :
    ~~~v &&& flagCarry = ~~~w &&& flagCarry := by
  have hnot : ∀ v : U8, ~~~v &&& flagCarry = ~~~(v &&& flagCarry) &&& flagCarry := by decide
  rw [hnot v, hnot w, h]

namespace StatusTestRule
variable {P : ∀ {α : Type}, CPU α → Prop} (h : StatusTestRule P)
include h

omit h in
theorem ite {α : Type} {c : Prop} [Decidable c] {x y : CPU α} (hx : P x) (hy : P y) :
    P (if c then x else y) := by
  split
  · exact hx
  · exact hy

theorem setZeroNegative (v : U8) : P (setZeroNegative v) :=
  h.bind (h.setStatusFlag _ (by decide) _) fun _ => h.setStatusFlag _ (by decide) _

/-- What holds of the primitives holds of the addressing helpers. -/
theorem addressing (addr : Addressing) : P addr.get := by
  cases addr with
  | zeroPage => exact h.bind h.readIncrementPC fun _ => h.pure _
  | zeroPageX =>
    exact h.bind (h.regGet .X) fun _ => h.bind h.readIncrementPC fun _ =>
      h.bind (h.setIndexedAddress _) fun _ => h.pure _
  | absolute =>
    exact h.bind h.readIncrementPC fun _ => h.bind h.readIncrementPC fun _ =>
      h.bind (h.setAddress _) fun _ => h.pure _
  | absoluteX =>
    exact h.bind h.readIncrementPC fun _ => h.bind h.readIncrementPC fun _ =>
      h.bind (h.regGet .X) fun _ => h.bind (h.setAddress _) fun _ => h.pure _
  | indirectX =>
    exact h.bind h.readIncrementPC fun _ => h.bind (h.regGet .X) fun _ =>
      h.bind (h.emuRead _) fun _ => h.bind (h.emuRead _) fun _ =>
        h.bind (h.setIndexedAddress _) fun _ => h.pure _
  | indirectY =>
    exact h.bind h.readIncrementPC fun _ => h.bind (h.emuRead _) fun _ =>
      h.bind (h.emuRead _) fun _ => h.bind (h.regGet .Y) fun _ =>
        h.bind (h.setIndexedAddress _) fun _ => h.pure _

/-- It holds of the operands. -/
theorem operand (operand : Operand) : P operand.get := by
  cases operand with
  | immediate => exact h.readIncrementPC
  | memory addr => exact h.bind (h.addressing addr) fun a => h.emuRead a

/-- It holds of the operations in place. -/
theorem rmwOp (op : RmwOp) (v : U8) (a : U16) : P (op.run v a) := by
  cases op with
  | asl | lsr =>
    exact h.bind (h.setStatusFlag _ (by decide) _) fun _ => h.bind (h.emuWrite _ _) fun _ =>
      h.setZeroNegative _
  | rol | ror =>
    refine h.testStatus (fun v w hvw => ?_) fun _ => h.bind (h.emuWrite _ _) fun _ =>
      h.bind (h.setStatusFlag _ (by decide) _) fun _ => h.setZeroNegative _
    simp only [testedFlag_congr carry_tested hvw]
  | inc | dec => exact h.bind (h.emuWrite _ _) fun _ => h.setZeroNegative _

/-- It holds of `ADC` and `SBC`. -/
theorem arithOp (order : EvalOrder) (op : ArithOp) (v : U8) : P (op.run order v) := by
  have hxor : ∀ a b, P (evalOperands order (bitXORA a) (bitXORA b)) := by
    intro a b
    cases order with
    | leftFirst | rightFirst =>
      exact h.bind (h.logicOp .eor _) fun _ => h.bind (h.logicOp .eor _) fun _ => h.pure _
  cases op with
  | adc | sbc =>
    refine h.bind (h.regGet .A) fun _ => h.testStatus (fun v w hvw => ?_) fun _ =>
      h.bind (hxor _ _) fun _ => h.bind (h.setStatusFlag _ (by decide) _) fun _ =>
        h.bind (h.setStatusFlag _ (by decide) _) fun _ => h.bind (h.regSet .A _) fun _ =>
          h.setZeroNegative _
    have hcarry := testedFlag_congr carry_tested hvw
    simp only [hcarry, not_and_carry hcarry]

theorem pullPC : P pullPC :=
  h.bind h.pullStack fun _ => h.bind h.pullStack fun _ => h.bind (h.setPC _) fun _ => h.pure _

theorem takeBranch (result : U8) : P (takeBranch result) :=
  h.bind h.programCounter fun _ => h.bind (h.setPC _) fun _ => h.cycle

/-- It holds of a branch on a flag that may be tested. -/
theorem branchBody {flag : U8} (hflag : flag ∈ testedFlags) (wanted : Bool) :
    P (branchBody flag wanted) := by
  refine h.bind h.readIncrementPC fun _ => h.testStatus (fun v w hvw => ?_) fun _ =>
    ite (h.takeBranch _) (h.pure _)
  simp only [testedFlag_congr hflag hvw]

theorem jsrBody : P jsrBody :=
  h.bind h.readIncrementPC fun _ => h.bind h.readPC fun _ => h.bind h.programCounter fun _ =>
    h.bind (h.pushStack _) fun _ => h.bind h.programCounter fun _ =>
      h.bind (h.pushStack _) fun _ => h.bind (h.setPC _) fun _ => h.pure _

theorem jmpIndirectBody : P jmpIndirectBody :=
  h.bind (h.addressing .absolute) fun _ => h.bind (h.emuRead _) fun _ =>
    h.bind (h.emuRead _) fun _ => h.bind (h.setPC _) fun _ => h.pure _

theorem aslABody : P aslABody :=
  h.bind (h.regGet .A) fun _ => h.bind (h.setStatusFlag _ (by decide) _) fun _ =>
    h.bind (h.regGet .A) fun _ => h.bind (h.regSet .A _) fun _ => h.setZeroNegative _

theorem lsrABody : P lsrABody := by
  have hrest : P (do
      let result ← setARegister ((← regA) >>> 1)
      Emulator.setZeroNegative result) :=
    h.bind (h.regGet .A) fun _ => h.bind (h.regSet .A _) fun _ => h.setZeroNegative _
  exact h.bind (h.regGet .A) fun _ =>
    ite (h.bind (h.setStatusFlag _ (by decide) _) fun _ => hrest) hrest

theorem rolABody : P rolABody := by
  refine h.bind (h.regGet .A) fun _ => h.bind (h.regGet .A) fun _ => h.bind (h.regSet .A _) fun _ =>
    h.testStatus (fun v w hvw => ?_) fun _ => h.bind (ite (h.logicOp .ora _) (h.pure _)) fun _ =>
      h.bind (h.setStatusFlag _ (by decide) _) fun _ => h.setZeroNegative _
  simp only [testedFlag_congr carry_tested hvw]

/-- **The rule of the cases** that do not push the status.  The two that pull it also need `P` of
`set_status_register`, and the ones that set or test a flag need it to be a flag. -/
theorem instr (order : EvalOrder) (instr : Instr)
    (hflag : ∀ flag value, instr = .setFlag flag value → flag ∈ statusFlags)
    (hbranch : ∀ flag wanted, instr = .branch flag wanted → flag ∈ testedFlags)
    (hstatus : instr.pullsStatus → ∀ v, P (setStatusRegister v))
    (hpush : instr.pushesStatus = false) : P (instr.run order) := by
  cases instr with
  | php | brk => cases hpush
  | hlt => exact h.halt
  | load reg operand =>
    exact h.bind (h.operand operand) fun v => h.bind (h.regSet reg v) fun _ => h.setZeroNegative _
  | store reg addr =>
    exact h.bind (h.addressing addr) fun a => h.bind (h.regGet reg) fun v => h.emuWrite a v
  | branch flag wanted => exact h.branchBody (hbranch flag wanted rfl) wanted
  | pha => exact h.bind (h.regGet .A) fun v => h.pushStack v
  | pla =>
    exact h.bind h.pullStack fun v => h.bind (h.regSet .A v) fun _ => h.setZeroNegative _
  | jsr => exact h.jsrBody
  | rts => exact h.bind h.pullPC fun _ => h.bind h.readIncrementPC fun _ => h.pure _
  | jmp => exact h.bind (h.addressing .absolute) fun _ => h.bind (h.setPC _) fun _ => h.pure _
  | jmpIndirect => exact h.jmpIndirectBody
  | increment reg | decrement reg =>
    exact h.bind (h.regGet reg) fun _ => h.bind (h.regSet reg _) fun _ => h.setZeroNegative _
  | transfer dst src =>
    exact h.bind (h.regGet src) fun v => h.bind (h.regSet dst v) fun _ => h.setZeroNegative _
  | txs => exact h.bind (h.regGet .X) fun v => h.bind (h.setSP v) fun _ => h.pure _
  | tsx =>
    exact h.bind h.stackPointer fun v => h.bind (h.regSet .X v) fun _ => h.setZeroNegative _
  | setFlag flag value => exact h.setStatusFlag flag (hflag flag value rfl) value
  | plp => exact h.bind h.pullStack fun v => h.bind (hstatus rfl v) fun _ => h.pure _
  | aslA => exact h.aslABody
  | lsrA => exact h.lsrABody
  | rolA => exact h.rolABody
  | rmw op addr =>
    exact h.bind (h.addressing addr) fun a => h.bind (h.emuRead a) fun v => h.rmwOp op v a
  | logicImmediate op =>
    exact h.bind h.readIncrementPC fun v => h.bind (h.logicOp op v) fun _ => h.setZeroNegative _
  | logic op addr =>
    exact h.bind (h.addressing addr) fun a => h.bind (h.emuRead a) fun v =>
      h.bind (h.logicOp op v) fun t => h.bind (h.emuWrite a t) fun _ => h.setZeroNegative _
  | arith op operand => exact h.bind (h.operand operand) fun v => h.arithOp order op v
  | compare reg operand =>
    exact h.bind (h.operand operand) fun _ => h.bind (h.regGet reg) fun _ =>
      h.bind (h.setStatusFlag _ (by decide) _) fun _ =>
        h.bind (h.setStatusFlag _ (by decide) _) fun _ => h.setStatusFlag _ (by decide) _
  | bit addr =>
    exact h.bind (h.addressing addr) fun a => h.bind (h.emuRead a) fun _ =>
      h.bind (h.regGet .A) fun _ => h.bind (h.setStatusFlag _ (by decide) _) fun _ =>
        h.bind (h.setStatusFlag _ (by decide) _) fun _ => h.setStatusFlag _ (by decide) _
  | rti =>
    exact h.bind h.pullStack fun v => h.bind (hstatus rfl v) fun _ => h.pullPC
  | nop => exact h.pure ()

end StatusTestRule

namespace PrimitiveRule
variable {P : ∀ {α : Type}, CPU α → Prop} (h : PrimitiveRule P)
include h

theorem branchBody (flag : U8) (wanted : Bool) : P (branchBody flag wanted) :=
  h.bind h.readIncrementPC fun _ => h.bind h.regStatus fun _ =>
    StatusTestRule.ite (h.tests.takeBranch _) (h.pure _)

theorem brkBody : P brkBody :=
  h.bind h.incrementPC fun _ => h.bind h.programCounter fun _ => h.bind (h.pushStack _) fun _ =>
    h.bind h.programCounter fun _ => h.bind (h.pushStack _) fun _ => h.bind h.regStatus fun _ =>
      h.bind (h.pushStack _) fun _ => h.bind (h.emuRead _) fun _ => h.bind (h.emuRead _) fun _ =>
        h.bind (h.setPC _) fun _ => h.pure _

/-- **The rule of the cases.**  The two that pull the status also need `P` of `set_status_register`,
and the ones that set a flag need it to be a flag. -/
theorem instr (order : EvalOrder) (instr : Instr)
    (hflag : ∀ flag value, instr = .setFlag flag value → flag ∈ statusFlags)
    (hstatus : instr.pullsStatus → ∀ v, P (setStatusRegister v)) : P (instr.run order) := by
  by_cases hpush : instr.pushesStatus = true
  · cases instr with
    | php => exact h.bind h.regStatus fun v => h.pushStack _
    | brk => exact h.brkBody
    | _ => cases hpush
  by_cases hbranch : instr.branchesOn = none
  · refine h.tests.instr order instr hflag (fun flag wanted e => ?_) hstatus
      (Bool.eq_false_iff.mpr hpush)
    rw [e] at hbranch
    cases hbranch
  · cases instr with
    | branch flag wanted => exact h.branchBody flag wanted
    | _ => exact absurd rfl hbranch

end PrimitiveRule

end KernelNES.Emulator
