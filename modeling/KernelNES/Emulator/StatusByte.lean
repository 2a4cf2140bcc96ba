import KernelNES.Emulator.Nesting
import KernelNES.Emulator.Reset

/-!
# Emulator — StatusByte

The two bits of the status register that are no flag.  Only the cases that pull the status can set
them (`unused_rule`): `PLP` and `RTI` take the byte of the stack as it is, while `PHP` pushes the
register with both bits set and `BRK` pushes it without.  So the bits stay clear, and every status
pushed has them set, exactly along the runs without a `BRK` on which no status with one of the bits
is pulled (`unusedBitsKept_iff`).
-/

namespace KernelNES.Emulator
open KernelNES.Lib

/-- The bits of the status register that are no flag. -/
def unusedBits : U8 := 0x30

/-- The unused bits of the flags register. -/
def Machine.unused (m : Machine) : U8 := m.registers.flags &&& unusedBits

/-! ### What moves the unused bits -/

/-- Setting a status flag moves no unused bit. -/
theorem setStatusFlag_unused {flag : U8} (h : flag ∈ statusFlags) (condition : Bool) :
    Preserves Machine.unused (setStatusFlag flag condition) := by
  have hmask : ∀ flag ∈ statusFlags, ∀ flags : U8, (flags ||| flag) &&& unusedBits =
      flags &&& unusedBits ∧ flags &&& ~~~flag &&& unusedBits = flags &&& unusedBits := by
    decide +kernel
  intro m
  show (if condition = true then _ else _ : U8) &&& unusedBits = _
  split
  · exact (hmask flag h _).1
  · exact (hmask flag h _).2

/-- No access but `set_status_register` moves the unused bits. -/
theorem unused_rule : PrimitiveRule (Preserves Machine.unused) where
  pure _ := fun _ => rfl
  bind := Preserves.bind
  regGet reg := by cases reg <;> exact fun _ => rfl
  regSet reg v := by cases reg <;> exact fun _ => rfl
  logicOp op v := by cases op <;> exact fun _ => rfl
  regStatus := fun _ => rfl
  setStatusFlag _ h condition := setStatusFlag_unused h condition
  stackPointer := fun _ => rfl
  setSP _ := fun _ => rfl
  programCounter := fun _ => rfl
  incrementPC := fun _ => rfl
  setPC _ := fun _ => rfl
  readPC := fun _ => rfl
  readIncrementPC := fun _ => rfl
  emuRead _ := fun _ => rfl
  emuWrite _ _ := fun _ => rfl
  pushStack _ := fun _ => rfl
  pullStack := fun _ => rfl
  setAddress _ := fun _ => rfl
  setIndexedAddress _ := fun _ => rfl
  halt := fun _ => rfl
  cycle := fun _ => rfl

/-- The next instruction pulls the status. -/
def Machine.PullsStatus (m : Machine) : Prop := m.nextOpcode = 0x28 ∨ m.nextOpcode = 0x40

instance (m : Machine) : Decidable m.PullsStatus := inferInstanceAs (Decidable (_ ∨ _))

/-- The cases that pull the flags. -/
theorem pullsStatus_of_decode {m : Machine} {instr : Instr} (h : decode m.nextOpcode = some instr)
    (hp : instr.pullsStatus = true) : m.PullsStatus := by
  have hall : ∀ p ∈ switchCases, p.2.pullsStatus = true → p.1 = 0x28 ∨ p.1 = 0x40 := by
    decide +kernel
  exact hall _ (mem_switchCases h) hp

section
variable (order : EvalOrder) (answer : Addr) {m : Machine}

/-- A step that does not pull the status keeps the unused bits. -/
theorem step_unused (h : ¬ m.PullsStatus) :
    (emulateCPU order answer m).2.unused = m.unused := by
  rw [emulateCPU_run]
  cases hd : decode m.nextOpcode with
  | none => rw [switchOpcode_of_decode_none hd]; rfl
  | some instr =>
    rw [switchOpcode_of_decode hd]
    exact unused_rule.instr order instr (fun _ _ e => setFlag_of_decode (e ▸ hd))
      (fun hp => absurd (pullsStatus_of_decode hd hp) h) (m.fetched answer)

/-- A step that pulls the status takes the unused bits from the top of the stack. -/
theorem step_unused_of_pullsStatus (h : m.PullsStatus) :
    (emulateCPU order answer m).2.unused =
      m.RAM (stackAddress (m.registers.stackPointer + 1)) &&& unusedBits := by
  rw [← peek_stack]
  rcases h with h | h
  · rw [emulateCPU_of_decode (show decode _ = some .plp by rw [h]; decide)]
    rfl
  · rw [emulateCPU_of_decode (show decode _ = some .rti by rw [h]; decide)]
    rfl

/-! ### The status pushed -/

/-- The status byte the step from `m` to `m'` pushed, if it is one of `PHP` or `BRK`. -/
def pushedStatus (m m' : Machine) : Option U8 :=
  if m.nextOpcode = 0x08 then some (m'.RAM (m.stackSlot 0))
  else if m.nextOpcode = 0x00 then some (m'.RAM (m.stackSlot 2))
  else none

/-- A status byte is pushed with both unused bits set, and with the flags of the register. -/
def PushesStatus (m m' : Machine) : Prop := ∀ v ∈ pushedStatus m m',
  v &&& unusedBits = unusedBits ∧ v &&& ~~~unusedBits = m.registers.flags &&& ~~~unusedBits

/-- `PHP` pushes the flags with both unused bits set. -/
theorem pushedStatus_php (h : m.nextOpcode = 0x08) :
    pushedStatus m (emulateCPU order answer m).2 = some (m.registers.flags ||| unusedBits) := by
  rw [pushedStatus, if_pos h,
    emulateCPU_of_decode (show decode _ = some .php by rw [h]; decide), stackSlot_zero]
  exact congrArg some (storeRAM_self _ (stackAddress_lt _))

/-- The third byte that `BRK` pushes is the register as it is. -/
theorem pushedStatus_brk (h : m.nextOpcode = 0x00) :
    pushedStatus m (emulateCPU order answer m).2 = some m.registers.flags := by
  rw [pushedStatus, if_neg (by rw [h]; decide), if_pos h,
    emulateCPU_of_decode (show decode _ = some .brk by rw [h]; decide), stackSlot_two]
  exact congrArg some (storeRAM_self _ (stackAddress_lt _))

/-- From a state whose unused bits are clear, `BRK` alone pushes a status without them. -/
theorem step_pushesStatus_iff (h : m.unused = 0) :
    PushesStatus m (emulateCPU order answer m).2 ↔ m.nextOpcode ≠ 0x00 := by
  have hmask : ∀ flags : U8, (flags ||| unusedBits) &&& unusedBits = unusedBits ∧
      (flags ||| unusedBits) &&& ~~~unusedBits = flags &&& ~~~unusedBits := by decide
  unfold PushesStatus
  by_cases hphp : m.nextOpcode = 0x08
  · rw [pushedStatus_php order answer hphp, hphp]
    refine iff_of_true (fun v hv => ?_) (by decide)
    cases hv
    exact hmask _
  by_cases hbrk : m.nextOpcode = 0x00
  · rw [pushedStatus_brk order answer hbrk]
    refine iff_of_false (fun hall => ?_) (not_not.mpr hbrk)
    have hset := (hall _ rfl).1
    rw [show m.registers.flags &&& unusedBits = 0 from h] at hset
    exact absurd hset (by decide)
  · refine iff_of_true (fun v hv => ?_) hbrk
    rw [pushedStatus, if_neg hphp, if_neg hbrk] at hv
    cases hv

end

/-! ### Runs -/

/-- The state `n` instructions on. -/
def Machine.after (m : Machine) (order : EvalOrder) (answers : Nat → Addr) : Nat → Machine
  | 0 => m
  | n + 1 => (emulateCPU order (answers n) (m.after order answers n)).2

/-- The next instruction is no `BRK`, and pulls no status with an unused bit. -/
def Machine.KeepsUnusedBits (m : Machine) : Prop :=
  m.nextOpcode ≠ 0x00 ∧
    (m.PullsStatus → m.RAM (stackAddress (m.registers.stackPointer + 1)) &&& unusedBits = 0)

/-- A step from clear bits keeps them clear, and pushes them set, unless it pulls set ones. -/
theorem step_unused_iff (order : EvalOrder) (answer : Addr) {m : Machine} (h : m.unused = 0) :
    ((emulateCPU order answer m).2.unused = 0 ∧ PushesStatus m (emulateCPU order answer m).2) ↔
      m.KeepsUnusedBits := by
  rw [step_pushesStatus_iff order answer h, and_comm]
  refine and_congr_right fun _ => ?_
  by_cases hp : m.PullsStatus
  · rw [step_unused_of_pullsStatus order answer hp]
    exact ⟨fun hv _ => hv, fun hv => hv hp⟩
  · rw [step_unused order answer hp]
    exact iff_of_true h fun hp' => absurd hp' hp

/-- Over the first `n` instructions the unused bits are clear in every state, and every status
pushed has them set and the flags of the register. -/
def UnusedBitsKept (order : EvalOrder) (answers : Nat → Addr) (m : Machine) (n : Nat) : Prop :=
  (∀ k ≤ n, (m.after order answers k).unused = 0) ∧
    ∀ k < n, PushesStatus (m.after order answers k) (m.after order answers (k + 1))

/-- One more step. -/
theorem unusedBitsKept_succ (order : EvalOrder) (answers : Nat → Addr) (m : Machine) (n : Nat) :
    UnusedBitsKept order answers m (n + 1) ↔
      UnusedBitsKept order answers m n ∧ (m.after order answers n).KeepsUnusedBits := by
  have hafter : m.after order answers (n + 1) =
      (emulateCPU order (answers n) (m.after order answers n)).2 := rfl
  constructor
  · rintro ⟨hclear, hpush⟩
    have hn := hclear n (Nat.le_succ n)
    exact ⟨⟨fun k hk => hclear k (hk.trans (Nat.le_succ n)),
        fun k hk => hpush k (hk.trans (Nat.lt_succ_self n))⟩,
      (step_unused_iff order (answers n) hn).mp
        (hafter ▸ ⟨hclear _ le_rfl, hpush n (Nat.lt_succ_self n)⟩)⟩
  · rintro ⟨⟨hclear, hpush⟩, hkeeps⟩
    obtain ⟨hlast, hlastPush⟩ :=
      hafter ▸ (step_unused_iff order (answers n) (hclear n le_rfl)).mpr hkeeps
    refine ⟨fun k hk => ?_, fun k hk => ?_⟩
    · rcases Nat.le_succ_iff.mp hk with hk | rfl
      · exact hclear k hk
      · exact hlast
    · rcases Nat.lt_succ_iff_lt_or_eq.mp hk with hk | rfl
      · exact hpush k hk
      · exact hlastPush

/-- The same for every run, by its last instruction. -/
theorem unusedBitsKept_iff_of_start (order : EvalOrder) (answers : Nat → Addr) (m : Machine)
    (n : Nat) : UnusedBitsKept order answers m n ↔
      m.unused = 0 ∧ ∀ k < n, (m.after order answers k).KeepsUnusedBits := by
  induction n with
  | zero =>
    refine ⟨fun h => ⟨h.1 0 le_rfl, fun k hk => absurd hk (Nat.not_lt_zero k)⟩, fun h => ?_⟩
    refine ⟨fun k hk => ?_, fun k hk => absurd hk (Nat.not_lt_zero k)⟩
    rw [Nat.le_zero.mp hk]
    exact h.1
  | succ n ih =>
    rw [unusedBitsKept_succ, ih, and_assoc]
    refine and_congr_right fun _ => ⟨fun h k hk => ?_, fun h => ?_⟩
    · rcases Nat.lt_succ_iff_lt_or_eq.mp hk with hk | rfl
      · exact h.1 k hk
      · exact h.2
    · exact ⟨fun k hk => h k (hk.trans (Nat.lt_succ_self n)), h n (Nat.lt_succ_self n)⟩

/-- `reset_state` moves no unused bit. -/
theorem resetState_unused {V : Type} (files : FileOps V) (v : V) (m : Machine) :
    (resetState files v m).unused = m.unused := by
  have hload : ∀ fd v, Preserves Machine.unused (loadFile files fd v) := fun fd v =>
    .bind (fun _ => rfl) fun _ => .bind (fun _ => rfl) fun _ => .bind (fun _ => rfl) fun _ =>
      .bind (fun _ => rfl) fun _ =>
        .bind (setStatusFlag_unused (by decide) true) fun _ => fun _ => rfl
  have hreset : Preserves Machine.unused
      (emuReset files .leftFirst 0 (fun _ => 0) v) :=
    .bind (fun _ => rfl) fun m => .bind (.ite (hload _ _) fun _ => rfl) fun _ => fun _ => rfl
  exact hreset m

/-- **When the unused status bits never become CPU state.**  From the state in which `emu_reset`
reaches `emu_run`, whatever was loaded, the unused bits stay clear and every status pushed has them
set over any number of instructions, exactly when they were clear before and none of the
instructions is a `BRK` or pulls a status with an unused bit. -/
theorem unusedBitsKept_iff {V : Type} (files : FileOps V) (v : V) (m : Machine)
    (order : EvalOrder) (answers : Nat → Addr) (n : Nat) :
    UnusedBitsKept order answers (resetState files v m) n ↔
      m.unused = 0 ∧
        ∀ k < n, ((resetState files v m).after order answers k).KeepsUnusedBits := by
  rw [unusedBitsKept_iff_of_start, resetState_unused]

/-- A file layer with one file; its state is the position in it. -/
def oneFile (image : Nat → U8) : FileOps Nat where
  fopen _ _ _ := (1, 0)
  fread buffer size nmemb _ pos :=
    (fun i => if i.toNat < (size * nmemb).toNat then image (pos + i.toNat) else buffer i,
      nmemb.toNat, pos + (size * nmemb).toNat)
  fseek _ offset _ _ := (0, offset.toNat)

/-- A ROM with `PHP` and `PLP` at `0x8000`, where its reset vector points. -/
def phpPlpImage (i : Nat) : U8 :=
  if i = 0x10 then 0x08 else if i = 0x11 then 0x28 else if i = 0x800D then 0x80 else 0

/-- `PHP` and `PLP`: the bits that `PHP` sets for the stack are in the register.  `BRK`: the status
it pushes has neither. -/
theorem unusedBits_leak :
    ¬ UnusedBitsKept .leftFirst (fun _ => 1)
        (resetState (oneFile phpPlpImage) 0 (.ofProgram [] ⟨0, 0, 0, 0, 0, 0⟩)) 2 ∧
      ¬ UnusedBitsKept .leftFirst (fun _ => 1)
        (resetState noFiles () (.ofProgram [] ⟨0, 0, 0, 0, 0, 0⟩)) 1 :=
  ⟨fun h => absurd (h.1 2 le_rfl) (by decide +kernel),
    fun h => absurd (h.2 0 Nat.zero_lt_one 0 (by decide +kernel)).1 (by decide +kernel)⟩

end KernelNES.Emulator
