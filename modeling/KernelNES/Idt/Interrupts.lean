import KernelNES.Lib.Records
import KernelNES.Lib.Runs
import KernelNES.Lib.X86

/-!
# Idt — Interrupts

`src/idt/idt.c` and `src/idt/idt.asm`: the table of interrupt gates, and the stubs that save the
registers, call a handler and return with `iret`.  An interrupt of the kernel leaves the interrupted
program as it was, whatever the handler does, exactly when its gate is one of these stubs and no
error code is on the stack (`interrupt_unseen_iff`): the gate of vector 0 is a C function, which
returns with `ret`, and no stub takes an error code off.  Along any run, then, the interrupts can be
left out (`interrupts_unseen`).
-/

namespace KernelNES.Idt
open KernelNES.Lib KernelNES.Lib.X86

/-! ### The table -/

/-- `struct idt_desc`. -/
structure IdtDesc where
  offset1 : U16
  selector : U16
  zero : U8
  typeAttr : U8
  offset2 : U16
  deriving DecidableEq, Repr

/-- `KERNEL_CODE_SELECTOR`. -/
def kernelCodeSelector : U16 := 0x08

/-- `PEACHOS_TOTAL_INTERRUPTS`. -/
def peachosTotalInterrupts : Nat := 512

/-- The eight bytes of a packed `struct idt_desc`. -/
def IdtDesc.bytes (desc : IdtDesc) : Fin 8 → U8
  | 0 => desc.offset1.extractLsb' 0 8
  | 1 => desc.offset1.extractLsb' 8 8
  | 2 => desc.selector.extractLsb' 0 8
  | 3 => desc.selector.extractLsb' 8 8
  | 4 => desc.zero
  | 5 => desc.typeAttr
  | 6 => desc.offset2.extractLsb' 0 8
  | 7 => desc.offset2.extractLsb' 8 8

/-- `idt_descriptors`, byte by byte. -/
abbrev Table : Type := Nat → U8

/-- What `idt_set` writes. -/
def idtDesc (address : U32) : IdtDesc where
  offset1 := (address &&& 0x0000FFFF).setWidth 16
  selector := kernelCodeSelector
  zero := 0x00
  typeAttr := 0x8E
  offset2 := (address >>> 16).setWidth 16

/-- `idt_set`. -/
def idtSet (interruptNo : Nat) (address : U32) (table : Table) : Table :=
  writeSlot table interruptNo (idtDesc address).bytes

/-- The loop of `idt_init`, with `n` entries left from `i` on. -/
def idtInitLoop (noInterrupt : U32) : (n i : Nat) → Table → Table
  | 0, _, table => table
  | n + 1, i, table => idtInitLoop noInterrupt n (i + 1) (idtSet i noInterrupt table)

/-- Where the linker put the functions that the table points to. -/
structure Symbols where
  idtZero : U32
  noInterrupt : U32
  int21h : U32
  pitIrq : U32

/-- `idt_init`, up to `idt_load`. -/
def idtInit (symbols : Symbols) : Table :=
  -- `memset`
  let table : Table := fun _ => 0
  let table := idtInitLoop symbols.noInterrupt peachosTotalInterrupts 0 table
  let table := idtSet 0 symbols.idtZero table
  let table := idtSet 0x21 symbols.int21h table
  idtSet 0x20 symbols.pitIrq table

/-- What the processor reads of an entry. -/
structure Gate where
  offset : U32
  selector : U16
  typeAttr : U8
  deriving DecidableEq, Repr

/-- A byte of an entry. -/
def entryByte (entry : Fin 8 → U8) (i : Nat) : U8 := if h : i < 8 then entry ⟨i, h⟩ else 0

/-- The gate the processor reads from an entry. -/
def decodeGate (entry : Fin 8 → U8) : Gate where
  offset := entryByte entry 7 ++ entryByte entry 6 ++ entryByte entry 1 ++ entryByte entry 0
  selector := entryByte entry 3 ++ entryByte entry 2
  typeAttr := entryByte entry 5

/-- An interrupt gate of the kernel. -/
def kernelGate (offset : U32) : Gate := ⟨offset, kernelCodeSelector, 0x8E⟩

/-- The function that `idt_init` maps a vector to. -/
def Symbols.handler (symbols : Symbols) (vector : Nat) : U32 :=
  if vector = 0x20 then symbols.pitIrq
  else if vector = 0x21 then symbols.int21h
  else if vector = 0 then symbols.idtZero
  else symbols.noInterrupt

/-- A byte of the high half of a word. -/
theorem extractLsb'_half (x : U32) {k : Nat} (h : k + 8 ≤ 16) :
    (x.extractLsb' 16 16).extractLsb' k 8 = x.extractLsb' (16 + k) 8 := by
  ext i hi
  have hlt : k + i < 16 := by omega
  simp [hlt, Nat.add_assoc]

/-- The gate is read back from its bytes. -/
theorem decodeGate_bytes (address : U32) :
    decodeGate (idtDesc address).bytes = kernelGate address := by
  have hlow : (address &&& 0x0000FFFF).setWidth 16 = address.extractLsb' 0 16 := by
    have hmask : (0x0000FFFF : U32).setWidth 16 = BitVec.allOnes 16 := by decide
    rw [BitVec.setWidth_and, hmask, BitVec.and_allOnes, BitVec.setWidth_eq_extractLsb' (by decide)]
  have hhigh : (address >>> 16).setWidth 16 = address.extractLsb' 16 16 :=
    BitVec.setWidth_ushiftRight_eq_extractLsb
  rw [idtDesc, hlow, hhigh, kernelGate, decodeGate]
  simp only [entryByte, IdtDesc.bytes, Nat.reduceLT, dite_true, Gate.mk.injEq, and_true]
  refine ⟨?_, by decide⟩
  rw [extractLsb'_half address (k := 8) (by decide), extractLsb'_half address (k := 0) (by decide),
    BitVec.extractLsb'_extractLsb'_of_le (by decide),
    BitVec.extractLsb'_extractLsb'_of_le (by decide)]
  exact word_bytes address

/-- The loop fills the table with `no_interrupt`. -/
theorem idtInitLoop_eq (noInterrupt : U32) (n i : Nat) (table : Table) :
    idtInitLoop noInterrupt n i table =
      fill (fun address => (idtDesc address).bytes) (fun _ => noInterrupt) n i table := by
  induction n generalizing i table with
  | zero => rfl
  | succ n ih => exact ih (i + 1) _

/-- **Every entry of the table is the gate of its function.** -/
theorem decodeGate_idtInit (symbols : Symbols) {vector : Nat}
    (h : vector < peachosTotalInterrupts) :
    decodeGate (readSlot 8 (idtInit symbols) vector) = kernelGate (symbols.handler vector) := by
  have hset : ∀ i address table, decodeGate (readSlot 8 (idtSet i address table) vector) =
      if vector = i then kernelGate address else decodeGate (readSlot 8 table vector) := by
    intro i address table
    by_cases hi : vector = i
    · rw [if_pos hi, hi, idtSet, readSlot_writeSlot_self, decodeGate_bytes]
    · rw [if_neg hi, idtSet, readSlot_writeSlot_of_ne hi]
  have hloop : ∀ table, decodeGate (readSlot 8
      (idtInitLoop symbols.noInterrupt peachosTotalInterrupts 0 table) vector) =
        kernelGate symbols.noInterrupt := by
    intro table
    rw [idtInitLoop_eq, readSlot_fill, if_pos (by omega), decodeGate_bytes]
  rw [idtInit, hset, hset, hset, hloop, Symbols.handler, apply_ite kernelGate,
    apply_ite kernelGate, apply_ite kernelGate]

/-! ### The stubs -/

/-- A C function that a stub calls: the address it returns to, and what it does. -/
structure Callee where
  back : U32
  run : State → State

/-- The stub of a handler. -/
def stub (handler : Callee) : Asm Unit := do
  cli
  pushad
  call handler.back handler.run
  popad
  sti
  iret

/-- The C functions of `idt.c` and `pit.c` that handle interrupts. -/
structure Handlers where
  int21hHandler : Callee
  noInterruptHandler : Callee
  pitHandler : Callee
  idtZero : State → State

/-- `int21h` of `idt.asm`. -/
def int21h (handlers : Handlers) : Asm Unit := stub handlers.int21hHandler

/-- `no_interrupt` of `idt.asm`. -/
def noInterrupt (handlers : Handlers) : Asm Unit := stub handlers.noInterruptHandler

/-- `pit_irq` of `idt.asm`. -/
def pitIrq (handlers : Handlers) : Asm Unit := stub handlers.pitHandler

/-- The code at an address that the table points to. -/
def code (symbols : Symbols) (handlers : Handlers) (address : U32) : Asm Unit :=
  if address = symbols.idtZero then modify handlers.idtZero
  else if address = symbols.int21h then int21h handlers
  else if address = symbols.pitIrq then pitIrq handlers
  else noInterrupt handlers

/-- An interrupt, from the program to the end of its handler. -/
def interrupt (symbols : Symbols) (handlers : Handlers) (vector : U8) (error : Option U32) :
    Asm Unit := do
  let gate := decodeGate (readSlot 8 (idtInit symbols) vector.toNat)
  enterGate gate.selector gate.offset error
  code symbols handlers gate.offset

/-! ### What a handler may do -/

/-- A C function as it is compiled: it returns with its address taken off the stack, and it writes
what is its own, and down to `depth` bytes below the stack. -/
structure Compiled (own : U32 → Prop) (depth : Nat) (f : State → State) : Prop where
  esp : ∀ s, (f s).reg .esp = s.reg .esp + 4
  seg : ∀ s, (f s).seg = s.seg
  mem : ∀ s b, ¬ own b → ¬ Within (s.reg .esp - BitVec.ofNat 32 depth) (depth + 4) b →
    (f s).mem b = s.mem b

/-- Every handler is a compiled C function. -/
structure Handlers.Compiled (own : U32 → Prop) (depth : Nat) (handlers : Handlers) : Prop where
  int21hHandler : Idt.Compiled own depth handlers.int21hHandler.run
  noInterruptHandler : Idt.Compiled own depth handlers.noInterruptHandler.run
  pitHandler : Idt.Compiled own depth handlers.pitHandler.run
  idtZero : Idt.Compiled own depth handlers.idtZero

/-- The program sees no difference: what has changed is the handlers' own memory, or lies below the
stack. -/
structure Unseen (own : U32 → Prop) (room : Nat) (s t : State) : Prop where
  reg : t.reg = s.reg
  seg : t.seg = s.seg
  eip : t.eip = s.eip
  eflags : t.eflags = s.eflags
  mem : ∀ b, ¬ own b → ¬ Within (s.reg .esp - BitVec.ofNat 32 room) room b → t.mem b = s.mem b

/-- The call of a handler keeps the stack pointer and the memory above the handler's room. -/
theorem Compiled.call {own : U32 → Prop} {depth : Nat} {handler : Callee}
    (hcompiled : Compiled own depth handler.run) (hdepth : 4 + depth < 2 ^ 32) (s : State) :
    ∃ t, call handler.back handler.run s = .ok ((), t) ∧ t.reg .esp = s.reg .esp ∧
      t.seg = s.seg ∧ ∀ b, ¬ own b →
        ¬ Within (s.reg .esp - BitVec.ofNat 32 (4 + depth)) (4 + depth) b → t.mem b = s.mem b := by
  refine ⟨_, rfl, ?_, hcompiled.seg _, fun b hb hnot => ?_⟩
  · rw [hcompiled.esp, State.push_esp]
    bv_omega
  · simp only [Within] at hnot
    rw [hcompiled.mem _ _ hb, State.push_mem]
    · simp only [Within]
      bv_omega
    · rw [State.push_esp]
      simp only [Within]
      bv_omega

/-- The stub up to its `iret`, with the words `vs` on the stack. -/
theorem stub_saves {own : U32 → Prop} {depth : Nat} {handler : Callee}
    (hcompiled : Compiled own depth handler.run) {vs : List U32} {s : State} (hstack : s.Stack vs)
    (hlen : 4 * vs.length + 36 + depth < 2 ^ 32)
    (hown : ∀ b, Within (s.reg .esp - 32) (32 + 4 * vs.length) b → ¬ own b) :
    ∃ t, stub handler s = iret t ∧ t.Stack vs ∧ t.reg = s.reg ∧ t.seg = s.seg ∧
      ∀ b, ¬ own b → ¬ Within (s.reg .esp - BitVec.ofNat 32 (36 + depth)) (36 + depth) b →
        t.mem b = s.mem b := by
  obtain ⟨s₁, hs₁, hreg₁, hseg₁, hmem₁⟩ : ∃ s₁, cli s = .ok ((), s₁) ∧ s₁.reg = s.reg ∧
      s₁.seg = s.seg ∧ s₁.mem = s.mem := ⟨_, rfl, rfl, rfl, rfl⟩
  have hstack₁ : s₁.Stack vs := by rwa [State.Stack, hreg₁, hmem₁]
  -- the registers are saved
  obtain ⟨s₂, hs₂, hs₂'⟩ : ∃ s₂, pushad s₁ = .ok ((), s₂) ∧ s₂ = s₁.pushAll _ :=
    ⟨_, pushad_eq s₁, rfl⟩
  obtain ⟨hstack₂, hesp₂, -, hseg₂, -, -, hmem₂⟩ := pushAll_spec
    [s₁.reg .eax, s₁.reg .ecx, s₁.reg .edx, s₁.reg .ebx, s₁.reg .esp, s₁.reg .ebp,
      s₁.reg .esi, s₁.reg .edi] hstack₁ (by simp only [List.length_cons, List.length_nil]; omega)
  rw [← hs₂', hreg₁] at hstack₂ hesp₂ hmem₂
  rw [← hs₂'] at hseg₂
  simp only [List.reverse_cons, List.reverse_nil, List.nil_append, List.cons_append,
    List.length_cons, List.length_nil] at hstack₂ hesp₂ hmem₂
  -- the handler returns to the saved registers
  obtain ⟨s₄, hs₄, hesp₄, hseg₄, hmem₄⟩ := hcompiled.call (by omega) s₂
  have hstack₄ : s₄.Stack (s.reg .edi :: s.reg .esi :: s.reg .ebp :: s.reg .esp :: s.reg .ebx ::
      s.reg .edx :: s.reg .ecx :: s.reg .eax :: vs) := by
    rw [State.Stack, hesp₄]
    refine hstack₂.congr (by simp only [List.length_cons]; omega) fun b hb =>
      hmem₄ b (hown b ?_) ?_
    · simp only [Within, List.length_cons] at hb ⊢
      bv_omega
    · simp only [Within, List.length_cons] at hb ⊢
      bv_omega
  -- which are taken back
  obtain ⟨hs₅, hstack₅⟩ := popad_spec hstack₄
  obtain ⟨s₆, hs₆, hreg₆, hseg₆, hmem₆⟩ : ∃ s₆, sti (s₄.popped (s.reg .edi) (s.reg .esi)
      (s.reg .ebp) (s.reg .ebx) (s.reg .edx) (s.reg .ecx) (s.reg .eax)) = .ok ((), s₆) ∧
      s₆.reg = (s₄.popped (s.reg .edi) (s.reg .esi) (s.reg .ebp) (s.reg .ebx) (s.reg .edx)
        (s.reg .ecx) (s.reg .eax)).reg ∧ s₆.seg = s₄.seg ∧ s₆.mem = s₄.mem :=
    ⟨_, rfl, rfl, rfl, rfl⟩
  refine ⟨s₆, ?_, ?_, ?_, ?_, fun b hb hnot => ?_⟩
  · rw [stub, Exec.bind_ok hs₁, Exec.bind_ok hs₂, Exec.bind_ok hs₄, Exec.bind_ok hs₅,
      Exec.bind_ok hs₆]
  · rw [State.Stack, hreg₆, hmem₆]
    exact hstack₅
  · rw [hreg₆]
    funext r
    cases r with
    | esp =>
        show s₄.reg .esp + 32 = _
        rw [hesp₄, hesp₂]
        bv_omega
    | _ => rfl
  · rw [hseg₆, hseg₄, hseg₂, hseg₁]
  · simp only [Within] at hnot
    rw [hmem₆, hmem₄ b hb, hmem₂ b, hmem₁]
    · simp only [Within]
      bv_omega
    · simp only [Within]
      bv_omega

/-! ### One interrupt -/

/-- The functions that the table points to are at different places. -/
def Symbols.Distinct (symbols : Symbols) : Prop :=
  [symbols.idtZero, symbols.int21h, symbols.pitIrq, symbols.noInterrupt].Nodup

instance (symbols : Symbols) : Decidable symbols.Distinct :=
  inferInstanceAs (Decidable (List.Nodup _))

section
variable {symbols : Symbols} {handlers : Handlers} {own : U32 → Prop} {depth : Nat}

/-- Every vector but 0 leads to a stub. -/
theorem code_handler (hsymbols : symbols.Distinct) (hcompiled : handlers.Compiled own depth)
    {vector : Nat} (h : vector ≠ 0) :
    ∃ handler, Compiled own depth handler.run ∧
      code symbols handlers (symbols.handler vector) = stub handler := by
  simp only [Symbols.Distinct, List.nodup_cons, List.mem_cons, List.not_mem_nil, or_false,
    not_or] at hsymbols
  obtain ⟨⟨hz21, hzpit, hzno⟩, ⟨h21pit, h21no⟩, hpitno, -⟩ := hsymbols
  rw [Symbols.handler]
  split
  · refine ⟨handlers.pitHandler, hcompiled.pitHandler, ?_⟩
    rw [code, if_neg (Ne.symm hzpit), if_neg (Ne.symm h21pit), if_pos rfl, pitIrq]
  split
  · refine ⟨handlers.int21hHandler, hcompiled.int21hHandler, ?_⟩
    rw [code, if_neg (Ne.symm hz21), if_pos rfl, int21h]
  · refine ⟨handlers.noInterruptHandler, hcompiled.noInterruptHandler, ?_⟩
    rw [code, if_neg (Ne.symm hzno), if_neg (Ne.symm h21no), if_neg (Ne.symm hpitno),
      noInterrupt]

/-- What an interrupt does: its gate, and then the code of its gate. -/
theorem interrupt_eq (vector : U8) (error : Option U32) :
    interrupt symbols handlers vector error = (do
      enterGate kernelCodeSelector (symbols.handler vector.toNat) error
      code symbols handlers (symbols.handler vector.toNat)) := by
  have hlt := vector.isLt
  rw [interrupt, decodeGate_idtInit symbols (by simp only [peachosTotalInterrupts]; omega)]
  rfl

/-- The program is interrupted in the kernel, with room on its stack that the handlers do not take
for their own memory. -/
structure Interruptible (own : U32 → Prop) (depth : Nat) (s : State) : Prop where
  cs : s.seg .cs = kernelCodeSelector
  room : 52 + depth < 2 ^ 32
  frame : ∀ b, Within (s.reg .esp - 52) 52 b → ¬ own b

variable {s : State}

/-- A stub that starts on a frame without an error code. -/
theorem interrupt_unseen (hsymbols : symbols.Distinct) (hcompiled : handlers.Compiled own depth)
    (hs : Interruptible own depth s) {vector : U8} (hvector : vector ≠ 0) :
    ∃ t, interrupt symbols handlers vector none s = .ok ((), t) ∧ Unseen own (52 + depth) s t := by
  obtain ⟨hcs, hroom, hframe⟩ := hs
  obtain ⟨s₁, hs₁, hstack₁, hesp₁, hreg₁, hseg₁, hmem₁⟩ :=
    enterGate_spec kernelCodeSelector (symbols.handler vector.toNat) none s
  simp only [Option.toList_none, List.length_nil, List.nil_append] at hstack₁ hesp₁ hmem₁
  obtain ⟨handler, hhandler, hcode⟩ := code_handler hsymbols hcompiled
    (show vector.toNat ≠ 0 from fun h => hvector (BitVec.eq_of_toNat_eq h))
  obtain ⟨s₂, hs₂, hstack₂, hreg₂, hseg₂, hmem₂⟩ := stub_saves hhandler hstack₁
    (by simp only [List.length_cons, List.length_nil]; omega) (fun b hb => hframe b (by
      simp only [Within, List.length_cons, List.length_nil] at hb ⊢
      bv_omega))
  -- the frame that `iret` finds is the one that was pushed
  have hcs₂ : s₂.seg .cs = kernelCodeSelector := by rw [hseg₂, hseg₁, Function.update_self]
  rw [hcs] at hstack₂
  have hiret : interrupt symbols handlers vector none s = iret s₂ := by
    rw [interrupt_eq, Exec.bind_ok hs₁, hcode, hs₂]
  rw [iret_spec hstack₂ (by decide) (by rw [hcs₂]; decide)] at hiret
  refine ⟨_, hiret, ?_, ?_, rfl, rfl, fun b hb hnot => ?_⟩
  · funext r
    show Function.update s₂.reg .esp (s₂.reg .esp + 12) r = s.reg r
    by_cases hr : r = .esp
    · rw [hr, Function.update_self, hreg₂, hesp₁]
      bv_omega
    · rw [Function.update_of_ne hr, hreg₂, hreg₁ r hr]
  · show Function.update s₂.seg .cs kernelCodeSelector = s.seg
    rw [hseg₂, hseg₁, Function.update_idem, ← hcs, Function.update_eq_self]
  · simp only [Within] at hnot
    show s₂.mem b = s.mem b
    rw [hmem₂ b hb, hmem₁ b]
    · simp only [Within]
      bv_omega
    · simp only [Within]
      bv_omega

/-- A stub that starts on a frame with an error code returns somewhere else. -/
theorem interrupt_error_seen (hsymbols : symbols.Distinct)
    (hcompiled : handlers.Compiled own depth) (hs : Interruptible own depth s) {vector : U8}
    (hvector : vector ≠ 0) {error : U32} {t : State}
    (h : interrupt symbols handlers vector (some error) s = .ok ((), t)) :
    ¬ Unseen own (52 + depth) s t := by
  intro hunseen
  obtain ⟨hcs, hroom, hframe⟩ := hs
  obtain ⟨s₁, hs₁, hstack₁, hesp₁, -, hseg₁, -⟩ :=
    enterGate_spec kernelCodeSelector (symbols.handler vector.toNat) (some error) s
  simp only [Option.toList_some, List.length_singleton, List.singleton_append] at hstack₁ hesp₁
  obtain ⟨handler, hhandler, hcode⟩ := code_handler hsymbols hcompiled
    (show vector.toNat ≠ 0 from fun h => hvector (BitVec.eq_of_toNat_eq h))
  obtain ⟨s₂, hs₂, -, hreg₂, hseg₂, -⟩ := stub_saves hhandler hstack₁
    (by simp only [List.length_cons, List.length_nil]; omega) (fun b hb => hframe b (by
      simp only [Within, List.length_cons, List.length_nil] at hb ⊢
      bv_omega))
  rw [interrupt_eq, Exec.bind_ok hs₁, hcode, hs₂] at h
  rcases iret_cases h with hesp | hlevel
  · rw [hunseen.reg, hreg₂, hesp₁] at hesp
    bv_omega
  · rw [hunseen.seg, hcs, hseg₂, hseg₁, Function.update_self] at hlevel
    exact absurd hlevel (by decide)

/-- The function of vector 0 leaves the frame on the stack. -/
theorem interrupt_zero_seen (hcompiled : handlers.Compiled own depth) {error : Option U32} {t : State}
    (h : interrupt symbols handlers 0 error s = .ok ((), t)) : ¬ Unseen own (52 + depth) s t := by
  intro hunseen
  obtain ⟨s₁, hs₁, -, hesp₁, -, -, -⟩ :=
    enterGate_spec kernelCodeSelector (symbols.handler (0 : U8).toNat) error s
  have hcode : code symbols handlers (symbols.handler (0 : U8).toNat) =
      modify handlers.idtZero := by
    rw [show symbols.handler (0 : U8).toNat = symbols.idtZero from rfl, code, if_pos rfl]
  rw [interrupt_eq, Exec.bind_ok hs₁, hcode] at h
  cases h
  have hesp : (handlers.idtZero s₁).reg .esp = s.reg .esp := by rw [hunseen.reg]
  rw [hcompiled.idtZero.esp, hesp₁] at hesp
  cases error <;> simp only [Option.toList_none, Option.toList_some, List.length_nil,
    List.length_singleton] at hesp <;> bv_omega

/-- **Interrupts are unseen** exactly when they have a stub and no error code. -/
theorem interrupt_unseen_iff (hsymbols : symbols.Distinct)
    (hcompiled : handlers.Compiled own depth) (hs : Interruptible own depth s) (vector : U8)
    (error : Option U32) :
    (∃ t, interrupt symbols handlers vector error s = .ok ((), t) ∧
      Unseen own (52 + depth) s t) ↔ vector ≠ 0 ∧ error = none := by
  constructor
  · rintro ⟨t, h, hunseen⟩
    refine ⟨?_, ?_⟩
    · rintro rfl
      exact interrupt_zero_seen hcompiled h hunseen
    · by_contra herror
      obtain ⟨code, rfl⟩ := Option.ne_none_iff_exists'.mp herror
      refine interrupt_error_seen hsymbols hcompiled hs ?_ h hunseen
      rintro rfl
      exact interrupt_zero_seen hcompiled h hunseen
  · rintro ⟨hvector, rfl⟩
    exact interrupt_unseen hsymbols hcompiled hs hvector

end

/-! ### Runs -/

/-- The bytes below the stack, down to `base`. -/
def BelowStack (base : U32) (s : State) (a : U32) : Prop :=
  Within base (s.reg .esp - base).toNat a

/-- The kernel runs, on a stack that has room for an interrupt. -/
structure Roomy (own : U32 → Prop) (base : U32) (depth : Nat) (s : State) : Prop where
  cs : s.seg .cs = kernelCodeSelector
  room : 52 + depth ≤ (s.reg .esp - base).toNat
  stack : ∀ a, BelowStack base s a → ¬ own a

/-- A state of the kernel, and the bytes that are defined in it: that the program has not left below
its stack since it wrote them. -/
structure Tracked where
  state : State
  defined : U32 → Prop

/-- What an instruction writes is defined, until the stack pointer has passed it. -/
def Tracked.exec (base : U32) (i : Instr) (k : Tracked) : Tracked where
  state := i.exec k.state
  defined a := (k.defined a ∨ i.Writes k.state a) ∧ ¬ BelowStack base (i.exec k.state) a

/-- A step of the program, or an interrupt of it by a vector, with whatever its handler does.  The
program is given by the instruction at each address.  It reads what is defined, writes nothing of
the handlers' own, and keeps room on its stack. -/
inductive Step (symbols : Symbols) (own : U32 → Prop) (base : U32) (depth : Nat)
    (program : U32 → Instr) : Tracked → Option U8 → Tracked → Prop where
  | program {k : Tracked}
      (hreads : ∀ a ∈ (program k.state.eip).reads k.state.core, k.defined a)
      (hwrites : ∀ a, (program k.state.eip).Writes k.state a → ¬ own a)
      (hroomy : Roomy own base depth ((program k.state.eip).exec k.state)) :
      Step symbols own base depth program k none (k.exec base (program k.state.eip))
  | interrupt {k : Tracked} {s' : State} {vector : U8} {handlers : Handlers}
      (hcompiled : handlers.Compiled own depth) (hvector : vector ≠ 0)
      (h : interrupt symbols handlers vector none k.state = .ok ((), s')) :
      Step symbols own base depth program k (some vector) ⟨s', k.defined⟩

/-- The program cannot tell the states apart: the registers are the same, and the bytes that are
defined. -/
structure Agree (k k' : Tracked) : Prop where
  core : k'.state.core = k.state.core
  defined : k'.defined = k.defined
  mem : ∀ a, k.defined a → k'.state.mem a = k.state.mem a

/-- The kernel runs, and what is defined is neither the handlers' own nor below the stack. -/
structure Running (own : U32 → Prop) (base : U32) (depth : Nat) (k : Tracked) : Prop where
  roomy : Roomy own base depth k.state
  own : ∀ a, k.defined a → ¬ own a
  stack : ∀ a, k.defined a → ¬ BelowStack base k.state a

section
variable {symbols : Symbols} {own : U32 → Prop} {base : U32} {depth : Nat}
  {program : U32 → Instr} {s t : State} {k k' k₁ : Tracked}

/-- What lies below the stack depends on the stack pointer. -/
theorem belowStack_congr (h : t.core = s.core) (base a : U32) :
    BelowStack base t a ↔ BelowStack base s a := by
  have hreg : t.reg = s.reg := congrArg Core.reg h
  rw [BelowStack, BelowStack, hreg]

/-- Room on the stack is seen from the registers. -/
theorem Roomy.congr (hs : Roomy own base depth s) (h : t.core = s.core) :
    Roomy own base depth t := by
  have hreg : t.reg = s.reg := congrArg Core.reg h
  have hseg : t.seg = s.seg := congrArg Core.seg h
  exact ⟨by rw [hseg, hs.cs], by rw [hreg]; exact hs.room,
    fun a ha => hs.stack a ((belowStack_congr h base a).mp ha)⟩

/-- With room below the stack, the program may be interrupted. -/
theorem Roomy.interruptible (h : Roomy own base depth s) : Interruptible own depth s := by
  have hlt := (s.reg .esp - base).isLt
  refine ⟨h.cs, lt_of_le_of_lt h.room hlt, fun b hb => h.stack b ?_⟩
  have hroom := h.room
  simp only [Within] at hb
  simp only [BelowStack, Within]
  bv_omega

/-- An interrupt changes nothing that is defined. -/
theorem Step.interrupt_agree (hsymbols : symbols.Distinct) (hk : Running own base depth k)
    {vector : U8} (h : Step symbols own base depth program k (some vector) k') : Agree k k' := by
  cases h with
  | interrupt hcompiled hvector h =>
      obtain ⟨s₁, hs₁, hunseen⟩ :=
        interrupt_unseen hsymbols hcompiled hk.roomy.interruptible hvector
      cases h.symm.trans hs₁
      have hroom := hk.roomy.room
      refine ⟨?_, rfl, fun a ha => hunseen.mem a (hk.own a ha) fun hin => hk.stack a ha ?_⟩
      · simp only [State.core, hunseen.reg, hunseen.seg, hunseen.eip, hunseen.eflags]
      · -- what an interrupt takes of the stack is below it
        simp only [Within] at hin
        simp only [BelowStack, Within]
        bv_omega

/-- Every step leaves the kernel running. -/
theorem Step.running (hsymbols : symbols.Distinct) {e : Option U8} (hk : Running own base depth k)
    (h : Step symbols own base depth program k e k') : Running own base depth k' := by
  cases e with
  | none =>
      cases h with
      | program hreads hwrites hroomy =>
          refine ⟨hroomy, fun a ha => ?_, fun a ha => ha.2⟩
          rcases ha.1 with ha | ha
          · exact hk.own a ha
          · exact hwrites a ha
  | some vector =>
      have hagree := h.interrupt_agree hsymbols hk
      refine ⟨hk.roomy.congr hagree.core, fun a ha => ?_, fun a ha => ?_⟩
      · rw [hagree.defined] at ha
        exact hk.own a ha
      · rw [hagree.defined] at ha
        rw [belowStack_congr hagree.core]
        exact hk.stack a ha

/-- **A step of the program is the same where the program sees the same**: the instruction is the
same one, and it reads the same bytes. -/
theorem Step.program_agree (h : Step symbols own base depth program k none k')
    (hagree : Agree k k₁) :
    ∃ k₂, Step symbols own base depth program k₁ none k₂ ∧ Agree k' k₂ := by
  obtain ⟨s₁, defined⟩ := k₁
  obtain ⟨hcore, hdefined, hmem⟩ := hagree
  simp only at hcore hdefined hmem
  subst hdefined
  have heip : s₁.eip = k.state.eip := congrArg Core.eip hcore
  cases h with
  | program hreads hwrites hroomy =>
      have hbytes : ∀ a ∈ (program k.state.eip).reads k.state.core, s₁.mem a = k.state.mem a :=
        fun a ha => hmem a (hreads a ha)
      have hsame : ∀ a, (program k.state.eip).Writes s₁ a ↔
          (program k.state.eip).Writes k.state a := by
        intro a
        rw [Instr.Writes, Instr.Writes, Instr.outcome_congr hcore hbytes]
      obtain ⟨hcore', hmem'⟩ := Instr.exec_congr hcore hbytes
      refine ⟨_, .program (k := ⟨s₁, k.defined⟩) ?_ ?_ ?_, ?_, ?_, ?_⟩
      · simp only [heip, hcore]
        exact hreads
      · simp only [heip, hsame]
        exact hwrites
      · simp only [heip]
        exact hroomy.congr hcore'
      · simp only [heip]
        exact hcore'
      · funext a
        simp only [Tracked.exec, heip, hsame, belowStack_congr hcore']
      · rintro a ⟨ha, -⟩
        simp only [heip]
        exact hmem' a (ha.imp (hmem a) id)

/-- Agreement carries over a third state. -/
theorem Agree.trans {k₂ : Tracked} (h : Agree k k₁) (h' : Agree k₁ k₂) : Agree k k₂ :=
  ⟨h'.core.trans h.core, h'.defined.trans h.defined, fun a ha =>
    (h'.mem a (by rw [h.defined]; exact ha)).trans (h.mem a ha)⟩

theorem Agree.symm (h : Agree k k₁) : Agree k₁ k :=
  ⟨h.core.symm, h.defined.symm, fun a ha => (h.mem a (by rw [← h.defined]; exact ha)).symm⟩

/-- **Interrupts can be left out.**  Along any run of a program with interrupts at any places in it,
the steps of the program are a run by themselves, which ends with the same registers and the same
bytes, where they are defined. -/
theorem interrupts_unseen (hsymbols : symbols.Distinct) (hk : Running own base depth k)
    {events : List (Option U8)}
    (hrun : Run (Step symbols own base depth program) k events k') :
    ∃ t, Run (Step symbols own base depth program) k (events.filter fun e => e = none) t ∧
      Agree k' t := by
  refine hrun.purge Agree (fun e : Option U8 => e = none) hk
    (fun _ _ _ hk h => h.running hsymbols hk) ?_ ?_ ⟨rfl, rfl, fun _ _ => rfl⟩
  · rintro k e k' t - hagree rfl h
    exact h.program_agree hagree
  · intro k e k' t hk hagree he h
    obtain ⟨vector, rfl⟩ := Option.ne_none_iff_exists'.mp he
    exact (h.interrupt_agree hsymbols hk).symm.trans hagree

end

/-! ### A timer -/

/-- A handler that counts in the byte at `0x9000`. -/
def tick (s : State) : State :=
  { s with
    reg := Function.update s.reg .esp (s.reg .esp + 4)
    eip := load32 s.mem (s.reg .esp)
    mem := Function.update s.mem 0x9000 (s.mem 0x9000 + 1) }

/-- Every handler counts. -/
def tickHandlers : Handlers := ⟨⟨0x100050, tick⟩, ⟨0x100060, tick⟩, ⟨0x100070, tick⟩, tick⟩

/-- Where the functions are. -/
def tickSymbols : Symbols := ⟨0x100100, 0x100200, 0x100300, 0x100400⟩

/-- The kernel before its first instruction. -/
def tickStart : State where
  reg := Function.update (fun _ => 0) .esp 0x00200000
  seg := fun | .cs => kernelCodeSelector | _ => 0x10
  eip := 0x00100000
  eflags := 0x202
  mem := fun _ => 0

theorem tickHandlers_compiled : tickHandlers.Compiled (· = 0x9000) 0 := by
  have htick : Compiled (· = 0x9000) 0 tick := by
    refine ⟨fun s => ?_, fun _ => rfl, fun s b hb _ => Function.update_of_ne hb ..⟩
    simp [tick]
  exact ⟨htick, htick, htick, htick⟩

/-- The timer interrupt is not seen. -/
theorem tick_unseen : ∃ t, interrupt tickSymbols tickHandlers 0x20 none tickStart = .ok ((), t) ∧
    Unseen (· = 0x9000) 52 tickStart t := by
  refine (interrupt_unseen_iff (by decide) tickHandlers_compiled
    (show Interruptible (· = 0x9000) 0 tickStart from ⟨rfl, by decide, ?_⟩) 0x20 none).mpr ⟨by decide, rfl⟩
  rintro b hb rfl
  exact absurd hb (by decide)

/-- `push eax`, and `pop ebx` behind it. -/
def spill (a : U32) : Instr := if a = 0x00100000 then .pushReg .eax 1 else .popReg .ebx 1

theorem tick_roomy {s : State} (hcs : s.seg .cs = kernelCodeSelector)
    (hesp : s.reg .esp = 0x00200000 ∨ s.reg .esp = 0x001FFFFC) :
    Roomy (· = 0x9000) 0x001F0000 0 s := by
  refine ⟨hcs, ?_, ?_⟩
  · rcases hesp with h | h <;> rw [h] <;> decide
  · rintro a ha rfl
    rw [BelowStack] at ha
    rcases hesp with h | h <;> rw [h] at ha <;> exact absurd ha (by decide)

/-- The word that is pushed is none of the timer's, and lies on the stack. -/
theorem spill_above : ∀ a ∈ Instr.wordAt 0x001FFFFC,
    a ≠ 0x9000 ∧ ¬ Within 0x001F0000 ((0x001FFFFC : U32) - 0x001F0000).toNat a := by
  simp only [Instr.wordAt, List.mem_cons, List.not_mem_nil, or_false, Within]
  bv_omega

/-- The push writes that word. -/
theorem spill_writes {a : U32} :
    (spill tickStart.eip).Writes tickStart a ↔ a ∈ Instr.wordAt 0x001FFFFC := by
  have hword : ((spill tickStart.eip).outcome tickStart).2.map Prod.fst =
      Instr.wordAt 0x001FFFFC := rfl
  rw [← hword, List.mem_map]
  rfl

/-- The push reads no memory. -/
theorem spill_push (defined : U32 → Prop) : Step tickSymbols (· = 0x9000) 0x001F0000 0 spill
    ⟨tickStart, defined⟩ none (.exec 0x001F0000 (spill tickStart.eip) ⟨tickStart, defined⟩) := by
  refine .program (fun _ ha => absurd ha List.not_mem_nil) (fun a ha => ?_) ?_
  · exact (spill_above a (spill_writes.mp ha)).1
  · dsimp only
    rw [show spill tickStart.eip = .pushReg .eax 1 from rfl, Instr.pushReg_exec]
    exact tick_roomy rfl (.inr rfl)

/-- The pop reads the word that was pushed. -/
theorem spill_pop {k : Tracked} (heip : k.state.eip = 0x00100001)
    (hcs : k.state.seg .cs = kernelCodeSelector) (hesp : k.state.reg .esp = 0x001FFFFC)
    (hdefined : ∀ a ∈ Instr.wordAt 0x001FFFFC, k.defined a) :
    Step tickSymbols (· = 0x9000) 0x001F0000 0 spill k none
      (k.exec 0x001F0000 (spill k.state.eip)) := by
  have hpop : spill k.state.eip = .popReg .ebx 1 := by rw [heip]; rfl
  refine .program ?_ ?_ ?_
  · rw [hpop]
    intro a ha
    have hread : a ∈ Instr.wordAt (k.state.reg .esp) := ha
    rw [hesp] at hread
    exact hdefined a hread
  · rw [hpop]
    rintro a ⟨w, hw, -⟩
    cases hw
  · rw [hpop, Instr.popReg_exec]
    exact tick_roomy hcs (.inl (by simp [State.setReg, hesp]))

/-- A program that saves a register on its stack and takes it back, with the timer between the
two. -/
theorem spill_unseen : ∃ k k' t,
    k = ⟨tickStart, fun a => a ≠ 0x9000 ∧ ¬ BelowStack 0x001F0000 tickStart a⟩ ∧
    Run (Step tickSymbols (· = 0x9000) 0x001F0000 0 spill) k [none, some 0x20, none] k' ∧
      Run (Step tickSymbols (· = 0x9000) 0x001F0000 0 spill) k [none, none] t ∧ Agree k' t := by
  have hstart : Running (· = 0x9000) 0x001F0000 0
      ⟨tickStart, fun a => a ≠ 0x9000 ∧ ¬ BelowStack 0x001F0000 tickStart a⟩ :=
    ⟨tick_roomy rfl (.inl rfl), fun _ h => h.1, fun _ h => h.2⟩
  have hpush := spill_push fun a => a ≠ 0x9000 ∧ ¬ BelowStack 0x001F0000 tickStart a
  obtain ⟨s₂, hs₂, hunseen⟩ := interrupt_unseen (show tickSymbols.Distinct by decide)
    tickHandlers_compiled (hpush.running (by decide) hstart).roomy.interruptible
    (show (0x20 : U8) ≠ 0 by decide)
  have hesp : s₂.reg .esp = 0x001FFFFC := by rw [hunseen.reg]; rfl
  have hcs : s₂.seg .cs = kernelCodeSelector := by rw [hunseen.seg]; rfl
  have hdefined : ∀ a ∈ Instr.wordAt 0x001FFFFC, (Tracked.exec 0x001F0000 (spill tickStart.eip)
      ⟨tickStart, fun a => a ≠ 0x9000 ∧ ¬ BelowStack 0x001F0000 tickStart a⟩).defined a :=
    fun a ha => ⟨.inr (spill_writes.mpr ha), (spill_above a ha).2⟩
  have hrun : Run (Step tickSymbols (· = 0x9000) 0x001F0000 0 spill) _ [none, some 0x20, none] _ :=
    .cons hpush (.cons (.interrupt tickHandlers_compiled (by decide) hs₂) (.one
      (spill_pop (hunseen.eip.trans rfl) hcs hesp hdefined)))
  obtain ⟨t, ht, hagree⟩ := interrupts_unseen (by decide) hstart hrun
  exact ⟨_, _, t, rfl, hrun, ht, hagree⟩

end KernelNES.Idt
