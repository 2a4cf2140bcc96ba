import KernelNES.Lib.CInt
import KernelNES.Lib.Exec
import Mathlib.Logic.Function.Basic

/-!
# Lib — X86

A 32-bit x86 processor in protected mode, as far as stubs written in assembly need it: the general
registers, the segment registers, the flags and a memory of bytes.  An instruction is a computation
on the state that can stop at a trap.  `WordsAt` says which words lie one behind the other from an
address on; pushing puts words in front of them (`State.Stack.push`), and what changes the memory
elsewhere leaves them (`WordsAt.congr`), so that what is popped is what was pushed.  Of a program as
a whole only the footprint of each instruction matters (`Instr`): from states with the same registers
and the same bytes where it reads, it does the same (`Instr.exec_congr`).
-/

namespace KernelNES.Lib.X86

/-- The general registers. -/
inductive Reg where
  | eax | ecx | edx | ebx | esp | ebp | esi | edi
  deriving DecidableEq

/-- The segment registers. -/
inductive Seg where
  | cs | ds | es | fs | gs | ss
  deriving DecidableEq

/-- What stops an instruction. -/
inductive Trap where
  | generalProtection
  deriving DecidableEq

/-- Memory, byte by byte. -/
abbrev Mem : Type := U32 → U8

/-- The registers and the memory. -/
structure State where
  reg : Reg → U32
  seg : Seg → U16
  eip : U32
  eflags : U32
  mem : Mem

/-- What an instruction does. -/
abbrev Asm : Type → Type := Exec Trap State

/-! ### Words in memory -/

/-- The word at an address, its low byte first. -/
def load32 (m : Mem) (a : U32) : U32 := m (a + 3) ++ m (a + 2) ++ m (a + 1) ++ m a

/-- A word is written, its low byte first. -/
def store32 (m : Mem) (a v : U32) : Mem := fun b =>
  if b = a then v.extractLsb' 0 8
  else if b = a + 1 then v.extractLsb' 8 8
  else if b = a + 2 then v.extractLsb' 16 8
  else if b = a + 3 then v.extractLsb' 24 8
  else m b

/-- The bytes from `lo` on, `n` of them. -/
def Within (lo : U32) (n : Nat) (a : U32) : Prop := (a - lo).toNat < n

instance (lo : U32) (n : Nat) (a : U32) : Decidable (Within lo n a) :=
  inferInstanceAs (Decidable (_ < _))

/-- A word is its four bytes. -/
theorem word_bytes (v : U32) :
    v.extractLsb' 24 8 ++ v.extractLsb' 16 8 ++ v.extractLsb' 8 8 ++ v.extractLsb' 0 8 = v := by
  rw [BitVec.extractLsb'_append_extractLsb'_eq_extractLsb' (show 24 = 16 + 8 by rfl),
    BitVec.extractLsb'_append_extractLsb'_eq_extractLsb' (show 16 = 8 + 8 by rfl),
    BitVec.extractLsb'_append_extractLsb'_eq_extractLsb' (show 8 = 0 + 8 by rfl)]
  exact BitVec.extractLsb'_eq_self

/-- A word just stored is loaded back. -/
theorem load32_store32 (m : Mem) (a v : U32) : load32 (store32 m a v) a = v := by
  have h₁ : a + 1 ≠ a := by bv_omega
  have h₂ : a + 2 ≠ a ∧ a + 2 ≠ a + 1 := by constructor <;> bv_omega
  have h₃ : a + 3 ≠ a ∧ a + 3 ≠ a + 1 ∧ a + 3 ≠ a + 2 := by refine ⟨?_, ?_, ?_⟩ <;> bv_omega
  simp only [load32, store32, if_true, h₁, h₂, h₃, if_false]
  exact word_bytes v

/-- A store changes its four bytes. -/
theorem store32_of_not_within {m : Mem} {a v b : U32} (h : ¬ Within a 4 b) :
    store32 m a v b = m b := by
  simp only [Within] at h
  have h₀ : b ≠ a := by rintro rfl; simp at h
  have h₁ : b ≠ a + 1 := by rintro rfl; bv_omega
  have h₂ : b ≠ a + 2 := by rintro rfl; bv_omega
  have h₃ : b ≠ a + 3 := by rintro rfl; bv_omega
  simp only [store32, h₀, h₁, h₂, h₃, if_false]

/-- Words that agree byte by byte. -/
theorem load32_congr {m m' : Mem} {a : U32} (h : ∀ b, Within a 4 b → m' b = m b) :
    load32 m' a = load32 m a := by
  have hin : ∀ i : U32, i.toNat < 4 → m' (a + i) = m (a + i) := fun i hi =>
    h _ (by simp only [Within]; bv_omega)
  have h₀ : m' a = m a := h a (by simp only [Within]; bv_omega)
  rw [load32, load32, hin 1 (by decide), hin 2 (by decide), hin 3 (by decide), h₀]

/-- The words of the list lie from `a` on, one behind the other. -/
def WordsAt (m : Mem) : U32 → List U32 → Prop
  | _, []      => True
  | a, v :: vs => load32 m a = v ∧ WordsAt m (a + 4) vs

/-- Words that are not written stay. -/
theorem WordsAt.congr {m m' : Mem} {a : U32} {vs : List U32} (h : WordsAt m a vs)
    (hlen : 4 * vs.length ≤ 2 ^ 32) (hsame : ∀ b, Within a (4 * vs.length) b → m' b = m b) :
    WordsAt m' a vs := by
  induction vs generalizing a with
  | nil => trivial
  | cons v vs ih =>
      simp only [List.length_cons] at hlen hsame
      refine ⟨?_, ih h.2 (by omega) fun b hb => hsame b ?_⟩
      · rw [← h.1]
        refine load32_congr fun b hb => hsame b ?_
        simp only [Within] at hb ⊢
        omega
      · simp only [Within] at hb ⊢
        bv_omega

/-! ### Instructions -/

/-- A register is given a value. -/
def State.setReg (s : State) (r : Reg) (v : U32) : State :=
  { s with reg := Function.update s.reg r v }

/-- A word is put on the stack. -/
def State.push (s : State) (v : U32) : State :=
  { s with
    reg := Function.update s.reg .esp (s.reg .esp - 4)
    mem := store32 s.mem (s.reg .esp - 4) v }

/-- What a register holds. -/
def reg (r : Reg) : Asm U32 := fun s => .ok (s.reg r, s)

/-- What a segment register holds. -/
def seg (r : Seg) : Asm U16 := fun s => .ok (s.seg r, s)

/-- `mov r, v`. -/
def mov (r : Reg) (v : U32) : Asm Unit := fun s => .ok ((), s.setReg r v)

/-- `mov` to a segment register. -/
def movSeg (r : Seg) (v : U16) : Asm Unit :=
  fun s => .ok ((), { s with seg := Function.update s.seg r v })

/-- `push v`. -/
def push (v : U32) : Asm Unit := fun s => .ok ((), s.push v)

/-- `pop`. -/
def pop : Asm U32 := fun s =>
  .ok (load32 s.mem (s.reg .esp), s.setReg .esp (s.reg .esp + 4))

/-- `push r`. -/
def pushReg (r : Reg) : Asm Unit := do push (← reg r)

/-- `pop r`. -/
def popReg (r : Reg) : Asm Unit := do mov r (← pop)

/-- `pushad`: the stack pointer is pushed as it was before. -/
def pushad : Asm Unit := do
  let sp ← reg .esp
  pushReg .eax
  pushReg .ecx
  pushReg .edx
  pushReg .ebx
  push sp
  pushReg .ebp
  pushReg .esi
  pushReg .edi

/-- `popad`: the stack pointer that was pushed is dropped. -/
def popad : Asm Unit := do
  popReg .edi
  popReg .esi
  popReg .ebp
  let _ ← pop
  popReg .ebx
  popReg .edx
  popReg .ecx
  popReg .eax

/-- The interrupt flag. -/
def interruptFlag : U32 := 0x200

/-- `cli`. -/
def cli : Asm Unit := fun s => .ok ((), { s with eflags := s.eflags &&& ~~~interruptFlag })

/-- `sti`. -/
def sti : Asm Unit := fun s => .ok ((), { s with eflags := s.eflags ||| interruptFlag })

/-- `pushf`. -/
def pushf : Asm Unit := fun s => .ok ((), s.push s.eflags)

/-- `push` of a segment register. -/
def pushSeg (r : Seg) : Asm Unit := do push ((← seg r).setWidth 32)

/-- The instruction pointer, put on the stack. -/
def pushEip : Asm Unit := fun s => .ok ((), s.push s.eip)

/-- `jmp`. -/
def jmp (offset : U32) : Asm Unit := fun s => .ok ((), { s with eip := offset })

/-- `call`, to the return from the callee: `f` is what the callee does, its `ret` included. -/
def call (back : U32) (f : State → State) : Asm Unit := fun s => .ok ((), f (s.push back))

/-- The privilege level of a selector. -/
def level (selector : U16) : U16 := selector &&& 3

/-- `iret`: to a level further out, the stack is taken from the frame as well. -/
def iret : Asm Unit := do
  let eip ← pop
  let cs ← pop
  let eflags ← pop
  let cpl ← seg .cs
  if cs.setWidth 16 &&& 0xFFFC = 0 then Exec.fault .generalProtection
  else if level cpl < level (cs.setWidth 16) then do
    let esp ← pop
    let ss ← pop
    mov .esp esp
    movSeg .ss (ss.setWidth 16)
    movSeg .cs (cs.setWidth 16)
    fun s => .ok ((), { s with eip, eflags })
  else do
    movSeg .cs (cs.setWidth 16)
    fun s => .ok ((), { s with eip, eflags })

/-- An error code, for the exceptions that have one. -/
def pushError : Option U32 → Asm Unit
  | none => pure ()
  | some code => push code

/-- What the processor does through an interrupt gate, from the same level: the flags, the place
where the program is and, for some exceptions, an error code go on the stack, and interrupts are
off. -/
def enterGate (selector : U16) (offset : U32) (error : Option U32) : Asm Unit := do
  pushf
  pushSeg .cs
  pushEip
  pushError error
  movSeg .cs selector
  cli
  jmp offset

/-! ### The stack -/

@[simp] theorem State.push_esp (s : State) (v : U32) : (s.push v).reg .esp = s.reg .esp - 4 := by
  simp [State.push]

@[simp] theorem State.setReg_self (s : State) (r : Reg) (v : U32) : (s.setReg r v).reg r = v := by
  simp [State.setReg]

theorem State.setReg_of_ne (s : State) {r r' : Reg} (v : U32) (h : r' ≠ r) :
    (s.setReg r v).reg r' = s.reg r' :=
  Function.update_of_ne h ..

/-- Pushing moves no register but `esp`. -/
theorem State.push_reg (s : State) (v : U32) {r : Reg} (h : r ≠ .esp) :
    (s.push v).reg r = s.reg r :=
  Function.update_of_ne h ..

/-- The words of the list are on the stack, the first one on top. -/
def State.Stack (s : State) (vs : List U32) : Prop := WordsAt s.mem (s.reg .esp) vs

/-- Pushing puts a word on top of the stack, while the stack does not go round. -/
theorem State.Stack.push {s : State} {vs : List U32} (h : s.Stack vs)
    (hlen : 4 * vs.length < 2 ^ 32 - 4) (v : U32) : (s.push v).Stack (v :: vs) := by
  refine ⟨?_, ?_⟩
  · rw [State.push_esp]
    exact load32_store32 ..
  · rw [State.push_esp, show s.reg .esp - 4 + 4 = s.reg .esp by bv_omega]
    refine WordsAt.congr h (by omega) fun b hb => store32_of_not_within ?_
    simp only [Within] at hb ⊢
    bv_omega

/-- Popping takes the top of the stack. -/
theorem State.Stack.pop {s : State} {v : U32} {vs : List U32} (h : s.Stack (v :: vs)) :
    ∃ t, X86.pop s = .ok (v, t) ∧ t.Stack vs ∧ t = s.setReg .esp (s.reg .esp + 4) := by
  refine ⟨_, ?_, ?_, rfl⟩
  · rw [X86.pop, h.1]
  · rw [State.Stack, State.setReg_self]
    exact h.2

/-- A push changes four bytes below the stack. -/
theorem State.push_mem {s : State} {v b : U32} (h : ¬ Within (s.reg .esp - 4) 4 b) :
    (s.push v).mem b = s.mem b :=
  store32_of_not_within h

/-- Words that are put on the stack one after the other. -/
def State.pushAll (s : State) (vs : List U32) : State := vs.foldl State.push s

/-- What is pushed is on the stack, and nothing else has changed. -/
theorem pushAll_spec (vs : List U32) {ws : List U32} {s : State} (h : s.Stack ws)
    (hlen : 4 * (vs.length + ws.length) < 2 ^ 32) :
    (s.pushAll vs).Stack (vs.reverse ++ ws) ∧
      (s.pushAll vs).reg .esp = s.reg .esp - BitVec.ofNat 32 (4 * vs.length) ∧
      (∀ r, r ≠ .esp → (s.pushAll vs).reg r = s.reg r) ∧ (s.pushAll vs).seg = s.seg ∧
      (s.pushAll vs).eip = s.eip ∧ (s.pushAll vs).eflags = s.eflags ∧
      ∀ b, ¬ Within (s.reg .esp - BitVec.ofNat 32 (4 * vs.length)) (4 * vs.length) b →
        (s.pushAll vs).mem b = s.mem b := by
  induction vs generalizing s ws with
  | nil => exact ⟨h, by simp [State.pushAll], fun _ _ => rfl, rfl, rfl, rfl, fun _ _ => rfl⟩
  | cons v vs ih =>
      simp only [List.length_cons] at hlen
      obtain ⟨hstack, hesp, hreg, hseg, heip, hflags, hmem⟩ :=
        ih (h.push (by omega) v) (by simp only [List.length_cons]; omega)
      rw [State.push_esp] at hesp hmem
      refine ⟨?_, hesp.trans ?_, fun r hr => (hreg r hr).trans (State.push_reg s v hr), hseg, heip,
        hflags, fun b hb => (hmem b ?_).trans (State.push_mem ?_)⟩
      · rw [List.reverse_cons, List.append_assoc]
        exact hstack
      · simp only [List.length_cons]
        bv_omega
      · simp only [Within, List.length_cons] at hb ⊢
        bv_omega
      · simp only [Within, List.length_cons] at hb ⊢
        bv_omega

/-- The frame of an interrupt. -/
theorem enterGate_spec (selector : U16) (offset : U32) (error : Option U32) (s : State) :
    ∃ t, enterGate selector offset error s = .ok ((), t) ∧
      t.Stack (error.toList ++ [s.eip, (s.seg .cs).setWidth 32, s.eflags]) ∧
      t.reg .esp = s.reg .esp - BitVec.ofNat 32 (4 * (3 + error.toList.length)) ∧
      (∀ r, r ≠ .esp → t.reg r = s.reg r) ∧ t.seg = Function.update s.seg .cs selector ∧
      ∀ b, ¬ Within (s.reg .esp - BitVec.ofNat 32 (4 * (3 + error.toList.length)))
          (4 * (3 + error.toList.length)) b → t.mem b = s.mem b := by
  have hlen : error.toList.length ≤ 1 := by cases error <;> simp
  obtain ⟨hstack, hesp, hreg, hseg, -, -, hmem⟩ := 
    pushAll_spec ([s.eflags, (s.seg .cs).setWidth 32, s.eip] ++ error.toList)
    (show s.Stack [] from trivial)
    (by simp; omega)
  simp only [List.length_append, List.length_cons, List.length_nil, Nat.zero_add] at hesp hmem
  refine ⟨{ s.pushAll ([s.eflags, (s.seg .cs).setWidth 32, s.eip] ++ error.toList) with
      seg := Function.update s.seg .cs selector
      eip := offset
      eflags := s.eflags &&& ~~~interruptFlag }, ?_, ?_, hesp, hreg, rfl, hmem⟩
  · cases error <;> rfl
  · have hrev : ([s.eflags, (s.seg .cs).setWidth 32, s.eip] ++ error.toList).reverse ++ [] =
        error.toList ++ [s.eip, (s.seg .cs).setWidth 32, s.eflags] := by
      cases error <;> rfl
    rw [hrev] at hstack
    exact hstack

/-- `pushad` pushes the eight registers, `esp` as it was before. -/
theorem pushad_eq (s : State) :
    pushad s = .ok ((), s.pushAll [s.reg .eax, s.reg .ecx, s.reg .edx, s.reg .ebx, s.reg .esp,
      s.reg .ebp, s.reg .esi, s.reg .edi]) := rfl

/-- The word on top of the stack goes to a register. -/
theorem popReg_spec {s : State} {v : U32} {vs : List U32} (h : s.Stack (v :: vs)) {r : Reg}
    (hr : r ≠ .esp) :
    ∃ t, popReg r s = .ok ((), t) ∧ t.Stack vs ∧
      t = (s.setReg .esp (s.reg .esp + 4)).setReg r v := by
  obtain ⟨_, hpop, hstack, rfl⟩ := h.pop
  refine ⟨_, ?_, ?_, rfl⟩
  · rw [popReg, Exec.bind_ok hpop]
    rfl
  · rw [State.Stack, State.setReg_of_ne _ _ (Ne.symm hr)]
    exact hstack

/-- The registers that `popad` takes from the stack. -/
def State.popped (s : State) (edi esi ebp ebx edx ecx eax : U32) : State :=
  { s with
    reg := fun
      | .eax => eax
      | .ecx => ecx
      | .edx => edx
      | .ebx => ebx
      | .esp => s.reg .esp + 32
      | .ebp => ebp
      | .esi => esi
      | .edi => edi }

/-- `popad` takes back the eight words, and drops that of `esp`. -/
theorem popad_spec {s : State} {edi esi ebp esp ebx edx ecx eax : U32} {vs : List U32}
    (h : s.Stack (edi :: esi :: ebp :: esp :: ebx :: edx :: ecx :: eax :: vs)) :
    popad s = .ok ((), s.popped edi esi ebp ebx edx ecx eax) ∧
      (s.popped edi esi ebp ebx edx ecx eax).Stack vs := by
  obtain ⟨t₁, h₁, hs₁, ht₁⟩ := popReg_spec h (r := .edi) nofun
  obtain ⟨t₂, h₂, hs₂, ht₂⟩ := popReg_spec hs₁ (r := .esi) nofun
  obtain ⟨t₃, h₃, hs₃, ht₃⟩ := popReg_spec hs₂ (r := .ebp) nofun
  obtain ⟨t₄, h₄, hs₄, ht₄⟩ := hs₃.pop
  obtain ⟨t₅, h₅, hs₅, ht₅⟩ := popReg_spec hs₄ (r := .ebx) nofun
  obtain ⟨t₆, h₆, hs₆, ht₆⟩ := popReg_spec hs₅ (r := .edx) nofun
  obtain ⟨t₇, h₇, hs₇, ht₇⟩ := popReg_spec hs₆ (r := .ecx) nofun
  obtain ⟨t₈, h₈, hs₈, ht₈⟩ := popReg_spec hs₇ (r := .eax) nofun
  have ht : t₈ = s.popped edi esi ebp ebx edx ecx eax := by
    subst ht₈ ht₇ ht₆ ht₅ ht₄ ht₃ ht₂ ht₁
    simp only [State.setReg, State.popped, State.mk.injEq, and_true]
    funext r
    cases r <;> simp
    bv_omega
  rw [popad, Exec.bind_ok h₁, Exec.bind_ok h₂, Exec.bind_ok h₃, Exec.bind_ok h₄,
    Exec.bind_ok h₅, Exec.bind_ok h₆, Exec.bind_ok h₇, h₈, ← ht]
  exact ⟨rfl, hs₈⟩

/-- `iret` to the same level: the program goes on where it was, with its flags. -/
theorem iret_spec {s : State} {eip eflags : U32} {cs : U16} {vs : List U32}
    (h : s.Stack (eip :: cs.setWidth 32 :: eflags :: vs)) (hnull : cs &&& 0xFFFC ≠ 0)
    (hlevel : ¬ level (s.seg .cs) < level cs) :
    iret s = .ok ((), { s with
      reg := Function.update s.reg .esp (s.reg .esp + 12)
      seg := Function.update s.seg .cs cs
      eip := eip
      eflags := eflags }) := by
  obtain ⟨t₁, h₁, hs₁, ht₁⟩ := h.pop
  obtain ⟨t₂, h₂, hs₂, ht₂⟩ := hs₁.pop
  obtain ⟨t₃, h₃, -, ht₃⟩ := hs₂.pop
  have hcs : (cs.setWidth 32 : U32).setWidth 16 = cs := by
    rw [BitVec.setWidth_setWidth_of_le _ (by decide), BitVec.setWidth_eq]
  have hcpl : seg .cs t₃ = .ok (s.seg .cs, t₃) := by
    subst ht₃ ht₂ ht₁
    rfl
  rw [iret, Exec.bind_ok h₁, Exec.bind_ok h₂, Exec.bind_ok h₃, Exec.bind_ok hcpl, hcs,
    if_neg hnull, if_neg hlevel]
  show Except.ok ((), _) = _
  subst ht₃ ht₂ ht₁
  congr 2
  simp only [State.setReg, State.mk.injEq, and_true]
  funext r
  cases r <;> simp
  bv_omega

/-- An `iret` takes three words off the stack, or leads further out. -/
theorem iret_cases {s t : State} (h : iret s = .ok ((), t)) :
    t.reg .esp = s.reg .esp + 12 ∨ level (s.seg .cs) < level (t.seg .cs) := by
  rw [iret] at h
  obtain ⟨eip, s₁, hs₁, h⟩ := Exec.bind_eq_ok.mp h
  obtain ⟨cs, s₂, hs₂, h⟩ := Exec.bind_eq_ok.mp h
  obtain ⟨eflags, s₃, hs₃, h⟩ := Exec.bind_eq_ok.mp h
  obtain ⟨cpl, s₄, hs₄, h⟩ := Exec.bind_eq_ok.mp h
  cases hs₁
  cases hs₂
  cases hs₃
  cases hs₄
  split at h
  · cases h
  split at h
  · rename_i hlevel
    cases h
    refine .inr (lt_of_lt_of_eq hlevel ?_)
    simp [State.setReg]
  · cases h
    refine .inl ?_
    simp [State.setReg]
    bv_omega

/-! ### Programs -/

/-- What an instruction works on besides memory. -/
structure Core where
  reg : Reg → U32
  seg : Seg → U16
  eip : U32
  eflags : U32

/-- The registers of a state. -/
def State.core (s : State) : Core := ⟨s.reg, s.seg, s.eip, s.eflags⟩

/-- An instruction by its footprint: the addresses it reads, which the registers give, and what it
makes of the bytes there, the registers and the bytes it writes. -/
structure Instr where
  reads : Core → List U32
  run : Core → List U8 → Core × List (U32 × U8)

/-- Bytes are written, one after the other. -/
def writeBytes (m : Mem) (ws : List (U32 × U8)) : Mem :=
  ws.foldl (fun m w => Function.update m w.1 w.2) m

namespace Instr

/-- What an instruction makes of the bytes it reads. -/
def outcome (i : Instr) (s : State) : Core × List (U32 × U8) :=
  i.run s.core ((i.reads s.core).map s.mem)

/-- The state after an instruction. -/
def exec (i : Instr) (s : State) : State where
  reg := (i.outcome s).1.reg
  seg := (i.outcome s).1.seg
  eip := (i.outcome s).1.eip
  eflags := (i.outcome s).1.eflags
  mem := writeBytes s.mem (i.outcome s).2

/-- The bytes an instruction writes. -/
def Writes (i : Instr) (s : State) (a : U32) : Prop := ∃ w ∈ (i.outcome s).2, w.1 = a

/-- The four bytes of the word at an address. -/
def wordAt (a : U32) : List U32 := [a, a + 1, a + 2, a + 3]

/-- `push r`, of `length` bytes. -/
def pushReg (r : Reg) (length : U32) : Instr where
  reads _ := []
  run c _ :=
    ({ c with
        reg := Function.update c.reg .esp (c.reg .esp - 4)
        eip := c.eip + length },
      [(c.reg .esp - 4, (c.reg r).extractLsb' 0 8), (c.reg .esp - 4 + 1, (c.reg r).extractLsb' 8 8),
        (c.reg .esp - 4 + 2, (c.reg r).extractLsb' 16 8),
        (c.reg .esp - 4 + 3, (c.reg r).extractLsb' 24 8)])

/-- `pop r`, of `length` bytes. -/
def popReg (r : Reg) (length : U32) : Instr where
  reads c := wordAt (c.reg .esp)
  run c bytes :=
    ({ c with
        reg := Function.update (Function.update c.reg .esp (c.reg .esp + 4)) r
          (bytes.getD 3 0 ++ bytes.getD 2 0 ++ bytes.getD 1 0 ++ bytes.getD 0 0)
        eip := c.eip + length }, [])

end Instr

/-- A byte that is written is the one written last, and the others stay: what was there before
matters only where nothing is written. -/
theorem writeBytes_congr {m m' : Mem} {ws : List (U32 × U8)} {a : U32}
    (h : m' a = m a ∨ ∃ w ∈ ws, w.1 = a) : writeBytes m' ws a = writeBytes m ws a := by
  induction ws generalizing m m' with
  | nil => simpa [writeBytes] using h
  | cons w ws ih =>
      refine ih ?_
      dsimp only
      by_cases hw : w.1 = a
      · exact .inl (by rw [← hw, Function.update_self, Function.update_self])
      · refine h.imp (fun h => ?_) fun ⟨v, hv, hva⟩ => ?_
        · rw [Function.update_of_ne (Ne.symm hw), Function.update_of_ne (Ne.symm hw), h]
        · rcases List.mem_cons.mp hv with rfl | hv
          · exact absurd hva hw
          · exact ⟨v, hv, hva⟩

namespace Instr
variable {i : Instr} {s t : State}

/-- **An instruction depends on its footprint**: what it does is the same in states with the same
registers and the same bytes where it reads. -/
theorem outcome_congr (hcore : t.core = s.core)
    (hreads : ∀ a ∈ i.reads s.core, t.mem a = s.mem a) : i.outcome t = i.outcome s := by
  rw [outcome, outcome, hcore, List.map_congr_left hreads]

/-- The registers behind an instruction are those of its outcome. -/
theorem exec_core (i : Instr) (s : State) : (i.exec s).core = (i.outcome s).1 := rfl

/-- An instruction depends on the registers and on the memory it reads, and on no other. -/
theorem exec_congr (hcore : t.core = s.core)
    (hreads : ∀ a ∈ i.reads s.core, t.mem a = s.mem a) : (i.exec t).core = (i.exec s).core ∧
      ∀ a, t.mem a = s.mem a ∨ i.Writes s a → (i.exec t).mem a = (i.exec s).mem a := by
  have houtcome := outcome_congr hcore hreads
  refine ⟨by rw [exec_core, exec_core, houtcome], fun a ha => ?_⟩
  show writeBytes t.mem (i.outcome t).2 a = writeBytes s.mem (i.outcome s).2 a
  rw [houtcome]
  exact writeBytes_congr ha

/-- A push is a push. -/
theorem pushReg_exec (r : Reg) (length : U32) (s : State) :
    (pushReg r length).exec s = { s.push (s.reg r) with eip := s.eip + length } := by
  simp only [exec, outcome, pushReg, State.core, State.push, State.mk.injEq, true_and]
  funext b
  have h₁ : s.reg .esp - 4 + 1 ≠ s.reg .esp - 4 := by bv_omega
  have h₂ : s.reg .esp - 4 + 2 ≠ s.reg .esp - 4 ∧ s.reg .esp - 4 + 2 ≠ s.reg .esp - 4 + 1 := by
    constructor <;> bv_omega
  have h₃ : s.reg .esp - 4 + 3 ≠ s.reg .esp - 4 ∧ s.reg .esp - 4 + 3 ≠ s.reg .esp - 4 + 1 ∧
      s.reg .esp - 4 + 3 ≠ s.reg .esp - 4 + 2 := by
    refine ⟨?_, ?_, ?_⟩ <;> bv_omega
  simp only [writeBytes, List.foldl_cons, List.foldl_nil, Function.update_apply, store32]
  split_ifs <;> simp_all

/-- A pop is a pop. -/
theorem popReg_exec (r : Reg) (length : U32) (s : State) :
    (popReg r length).exec s =
      { (s.setReg .esp (s.reg .esp + 4)).setReg r (load32 s.mem (s.reg .esp)) with
        eip := s.eip + length } := rfl

end Instr

end KernelNES.Lib.X86
