import KernelNES.Lib.Digits
import KernelNES.Emulator.Shifts

/-!
# Emulator — MultiByte

Numbers of several bytes, low byte first, added, subtracted and shifted byte by byte.  Of one step
only the carry reaches the next: the bytes and carries of a chain are `Carries`, whatever `ADC_op`
and `SBC_op` do to the other flags and to `A` on the way.
-/

namespace KernelNES.Emulator
open KernelNES.Lib

/-- The number with the given bytes, low byte first. -/
def number (bytes : List U8) : Nat := Nat.ofDigits 256 (bytes.map BitVec.toNat)

/-- The number in RAM at the given addresses, the one of the low byte first. -/
def Machine.numberAt (m : Machine) (addrs : List U16) : Nat := number (addrs.map m.RAM)

/-- For each pair of bytes, low bytes first: load the first into `A`, apply the operation to the
second, and store `A`. -/
def arithChain (op : ArithOp) (order : EvalOrder) : List (U8 × U8) → CPU (List U8)
  | [] => pure []
  | (a, b) :: rest => do
      let _ ← setARegister a
      op.run order b
      let stored ← regA
      let bytes ← arithChain op order rest
      pure (stored :: bytes)

/-- `ROL_op` or `ROR_op` on one address after the other. -/
def rotateChain (op : RmwOp) : List U16 → CPU Unit
  | [] => pure ()
  | a :: rest => do
      op.run (← emuRead a) a
      rotateChain op rest

/-- `ASL_op` on the low byte, then `ROL_op` upward. -/
def shiftLeftChain : List U16 → CPU Unit
  | [] => pure ()
  | low :: rest => do
      aslOp (← emuRead low) low
      rotateChain .rol rest

/-- `LSR_op` on the high byte, then `ROR_op` downward; the high byte's address comes first. -/
def shiftRightChain : List U16 → CPU Unit
  | [] => pure ()
  | high :: rest => do
      lsrOp (← emuRead high) high
      rotateChain .ror rest

/-- A number of `n` bytes is below `256 ^ n`. -/
theorem number_lt (bytes : List U8) : number bytes < 256 ^ bytes.length := by
  have h := Nat.ofDigits_lt_base_pow_length (b := 256) (l := bytes.map BitVec.toNat) (by omega)
    fun d hd => by
      obtain ⟨b, -, rfl⟩ := List.mem_map.mp hd
      exact b.isLt
  simpa [number] using h

/-- The bytes as digits, read as one number. -/
theorem value_toNat {α : Type} (l : List α) (f : α → U8) :
    value (256 : Int) (l.map fun a => ((f a).toNat : Int)) = number (l.map f) := by
  have h := value_natCast (R := Int) l 256 fun a => (f a).toNat
  rw [number, List.map_map]
  exact_mod_cast h

/-! ### Addition and subtraction -/

/-- What a pair of bytes contributes. -/
def ArithOp.digit : ArithOp → (a b : U8) → Int
  | .adc, a, b => a.toNat + b.toNat
  | .sbc, a, b => a.toNat - b.toNat

/-- What the carry flag `C` contributes: for `SBC`, a borrow when it is clear. -/
def ArithOp.link : ArithOp → (C : Int) → Int
  | .adc, C => C
  | .sbc, C => C - 1

/-- One digit of the sum, or of the difference, and the carry into it. -/
theorem ArithOp.exact_eq (op : ArithOp) (a b : U8) (C : Int) :
    op.exact a.toNat b.toNat C = op.digit a b + op.link C := by
  cases op with
  | adc => rfl
  | sbc =>
    simp only [ArithOp.exact, ArithOp.digit, ArithOp.link]
    omega

/-- The carry after the operation. -/
theorem ArithOp.run_carry (op : ArithOp) (order : EvalOrder) (M : U8) (m : Machine) :
    hasFlag (op.run order M m).2.registers.flags flagCarry ↔
      op.CarryOut (op.exact m.registers.A.toNat M.toNat (carryIn m.registers.flags)) := by
  rw [op.run_registers]
  refine (hasFlag_carry _ _ _ _).trans ?_
  cases op <;> exact decide_eq_true_iff

/-- **One step of a chain.** -/
theorem ArithOp.step_carries (op : ArithOp) (order : EvalOrder) (a b : U8) (m : Machine) :
    let m' := (op.run order b (setARegister a m).2).2
    op.digit a b + op.link (carryIn m.registers.flags) =
      m'.registers.A.toNat + 256 * op.link (carryIn m'.registers.flags) := by
  intro m'
  have hcarry := op.run_carry order b (setARegister a m).2
  have hA : (m'.registers.A.toNat : Int) =
      (op.digit a b + op.link (carryIn m.registers.flags)) % 256 := by
    rw [← op.exact_eq]
    show ((op.run order b (setARegister a m).2).2.registers.A.toNat : Int) = _
    rw [op.run_registers]
    exact toNat_ofInt_eight _
  replace hcarry : hasFlag m'.registers.flags flagCarry ↔
      op.CarryOut (op.digit a b + op.link (carryIn m.registers.flags)) := by
    rw [← op.exact_eq]
    exact hcarry
  have ha := a.isLt
  have hb := b.isLt
  have hC := carryIn_eq m.registers.flags
  by_cases h : hasFlag m'.registers.flags flagCarry
  · have hC' : carryIn m'.registers.flags = 1 := if_pos h
    have hout := hcarry.mp h
    rw [hC']
    cases op <;> simp only [digit, link, CarryOut] at * <;> omega
  · have hC' : carryIn m'.registers.flags = 0 := if_neg h
    have hout := hcarry.not.mp h
    rw [hC']
    cases op <;> simp only [digit, link, CarryOut] at * <;> omega

/-- **A whole chain.** -/
theorem arithChain_carries (op : ArithOp) (order : EvalOrder) (ab : List (U8 × U8)) (m : Machine) :
    let r := arithChain op order ab m
    r.1.length = ab.length ∧
      Carries 256 (op.link (carryIn m.registers.flags)) (ab.map fun p => op.digit p.1 p.2)
        (r.1.map fun v => (v.toNat : Int)) (op.link (carryIn r.2.registers.flags)) := by
  induction ab generalizing m with
  | nil => exact ⟨rfl, .nil _⟩
  | cons p ab ih =>
    obtain ⟨hlen, hrest⟩ := ih (regA (op.run order p.2 (setARegister p.1 m).2).2).2
    exact ⟨congrArg (· + 1) hlen, .cons (op.step_carries order p.1 p.2 m) hrest⟩

/-- The number stored is the exact one without its multiples of `256 ^ n`, and these are the
carry. -/
theorem arithChain_exact (op : ArithOp) (order : EvalOrder) (ab : List (U8 × U8)) (m : Machine) :
    let r := arithChain op order ab m
    let exact := op.exact (number (ab.map Prod.fst)) (number (ab.map Prod.snd))
      (carryIn m.registers.flags)
    r.1.length = ab.length ∧ (number r.1 : Int) = exact % 256 ^ ab.length ∧
      op.link (carryIn r.2.registers.flags) = exact / 256 ^ ab.length := by
  intro r exact
  obtain ⟨hlen, hcarries⟩ := arithChain_carries op order ab m
  have hvalue := hcarries.value_add
  have hdigits : value (256 : Int) (ab.map fun p => op.digit p.1 p.2) +
      op.link (carryIn m.registers.flags) = exact := by
    cases op with
    | adc =>
      show value (256 : Int) (ab.map fun p => (p.1.toNat : Int) + p.2.toNat) + _ = _
      rw [value_map_add, value_toNat, value_toNat]
      rfl
    | sbc =>
      show value (256 : Int) (ab.map fun p => (p.1.toNat : Int) - p.2.toNat) + _ = _
      rw [value_map_sub, value_toNat, value_toNat]
      simp only [ArithOp.link, exact, ArithOp.exact]
      omega
  have hr := value_toNat r.1 id
  rw [List.map_id] at hr
  rw [hdigits, List.length_map] at hvalue
  have hq := quotient_of_carries (hlen ▸ number_lt r.1) (hvalue.trans (by rw [← hr]; rfl))
  exact ⟨hlen, hq.1, hq.2⟩

/-! ### Shifts -/

/-- A read-modify-write of the byte at an address. -/
def RmwOp.stepAt (op : RmwOp) (a : U16) (m : Machine) : Machine :=
  (op.run (m.peek a) a (emuRead a m).2).2

/-- An operation in place changes the byte at its address, and no other. -/
theorem RmwOp.stepAt_of_ne (op : RmwOp) {a b : U16} (h : b ≠ a) (m : Machine) :
    (op.stepAt a m).RAM b = m.RAM b := by
  obtain ⟨w, hw⟩ := op.run_RAM (m.peek a) a (emuRead a m).2
  rw [stepAt, hw]
  exact storeRAM_of_ne w h

/-- Doubling a byte, with or without a carry into it. -/
theorem double_byte : ∀ v : U8,
    2 * v.toNat = (v <<< 1).toNat + 256 * (decide (v &&& 0x80 ≠ 0)).toNat ∧
      (v <<< 1 ||| 0x01).toNat = (v <<< 1).toNat + 1 := by
  decide +kernel

/-- Halving a byte, with or without a carry into it. -/
theorem halve_byte : ∀ v : U8,
    v.toNat = 2 * (v >>> 1).toNat + (decide (v &&& 0x01 ≠ 0)).toNat ∧
      (v >>> 1 ||| 0x80).toNat = (v >>> 1).toNat + 128 := by
  decide +kernel

/-- The carry behind a shift is the bit out. -/
theorem carryIn_shifted (flags : U8) (c : Bool) (v : U8) :
    carryIn (shiftedFlags flags c v) = c.toNat := by
  have h : hasFlag (shiftedFlags flags c v) flagCarry ↔ c = true := hasFlag_carry _ _ _ _
  cases c <;> simp [carryIn, h]

section
variable {a : U16} (h : a < 0x800) (m : Machine)
include h

/-- The byte and the carry a shift leaves. -/
theorem ShiftOp.stepAt_eq (op : ShiftOp) :
    (op.memory.stepAt a m).RAM a = op.result (m.RAM a) m.registers.flags ∧
      carryIn (op.memory.stepAt a m).registers.flags = (op.bitOut (m.RAM a)).toNat := by
  obtain ⟨hr, hm⟩ := op.memory_run (m.peek a) a (emuRead a m).2
  rw [RmwOp.stepAt, hr, hm, storeRAM_self _ h, carryIn_shifted, Machine.peek_RAM h]
  exact ⟨rfl, rfl⟩

/-- `ROR` on memory. -/
theorem ror_stepAt :
    (RmwOp.ror.stepAt a m).RAM a =
        (if hasFlag m.registers.flags flagCarry then m.RAM a >>> 1 ||| 0x80 else m.RAM a >>> 1) ∧
      carryIn (RmwOp.ror.stepAt a m).registers.flags =
        (decide (m.RAM a &&& 0x01 ≠ 0)).toNat := by
  have hflags : (RmwOp.ror.stepAt a m).registers.flags =
      shiftedFlags m.registers.flags (m.peek a &&& 0x01 ≠ 0)
        (if hasFlag m.registers.flags flagCarry then m.peek a >>> 1 ||| 0x80 else m.peek a >>> 1) :=
    rfl
  have hRAM : (RmwOp.ror.stepAt a m).RAM = storeRAM m.RAM a
      (if hasFlag m.registers.flags flagCarry then m.peek a >>> 1 ||| 0x80 else m.peek a >>> 1) :=
    rfl
  rw [hflags, hRAM, storeRAM_self _ h, carryIn_shifted, Machine.peek_RAM h]
  exact ⟨rfl, rfl⟩

/-- `ASL` doubles the byte, the bit out in the carry. -/
theorem asl_step : 2 * ((m.RAM a).toNat : Int) =
    ((RmwOp.asl.stepAt a m).RAM a).toNat +
      256 * carryIn (RmwOp.asl.stepAt a m).registers.flags := by
  obtain ⟨hr, hc⟩ := ShiftOp.asl.stepAt_eq h m
  refine Eq.trans ?_ (congrArg₂ (fun (r : U8) c => (r.toNat : Int) + 256 * c) hr hc).symm
  exact_mod_cast (double_byte (m.RAM a)).1

/-- `ROL` doubles it, the carry in at the bottom. -/
theorem rol_step : 2 * ((m.RAM a).toNat : Int) + carryIn m.registers.flags =
    ((RmwOp.rol.stepAt a m).RAM a).toNat +
      256 * carryIn (RmwOp.rol.stepAt a m).registers.flags := by
  obtain ⟨hr, hc⟩ := ShiftOp.rol.stepAt_eq h m
  have hdouble : 2 * (m.RAM a).toNat =
      (m.RAM a <<< 1).toNat + 256 * (ShiftOp.rol.bitOut (m.RAM a)).toNat := (double_byte _).1
  have hone := (double_byte (m.RAM a)).2
  refine Eq.trans ?_ (congrArg₂ (fun (r : U8) c => (r.toNat : Int) + 256 * c) hr hc).symm
  simp only [ShiftOp.result, carryIn]
  split <;> omega

/-- `LSR` halves the byte, the bit out in the carry. -/
theorem lsr_step : ((m.RAM a).toNat : Int) =
    2 * ((RmwOp.lsr.stepAt a m).RAM a).toNat +
      carryIn (RmwOp.lsr.stepAt a m).registers.flags := by
  obtain ⟨hr, hc⟩ := ShiftOp.lsr.stepAt_eq h m
  refine Eq.trans ?_ (congrArg₂ (fun (r : U8) c => 2 * (r.toNat : Int) + c) hr hc).symm
  exact_mod_cast (halve_byte (m.RAM a)).1

/-- `ROR` halves it, the carry in at the top. -/
theorem ror_step : 256 * carryIn m.registers.flags + ((m.RAM a).toNat : Int) =
    2 * ((RmwOp.ror.stepAt a m).RAM a).toNat +
      carryIn (RmwOp.ror.stepAt a m).registers.flags := by
  obtain ⟨hr, hc⟩ := ror_stepAt h m
  obtain ⟨hhalve, htop⟩ := halve_byte (m.RAM a)
  refine Eq.trans ?_ (congrArg₂ (fun (r : U8) c => 2 * (r.toNat : Int) + c) hr hc).symm
  unfold carryIn
  split <;> omega

end

/-! ### Chains of shifts -/

/-- A chain changes no byte at other addresses. -/
theorem rotateChain_of_notMem (op : RmwOp) {a : U16} {addrs : List U16} (h : a ∉ addrs)
    (m : Machine) : (rotateChain op addrs m).2.RAM a = m.RAM a := by
  induction addrs generalizing m with
  | nil => rfl
  | cons b addrs ih =>
    exact (ih (List.not_mem_of_not_mem_cons h) (op.stepAt b m)).trans
      (op.stepAt_of_ne (List.ne_of_not_mem_cons h) m)

/-- The bytes still to come are those before the step. -/
theorem map_stepAt (op : RmwOp) {a : U16} {addrs : List U16} (h : a ∉ addrs) (m : Machine)
    {β : Type} (f : U8 → β) :
    (addrs.map fun b => f ((op.stepAt a m).RAM b)) = addrs.map fun b => f (m.RAM b) :=
  List.map_congr_left fun b hb =>
    congrArg f (op.stepAt_of_ne (fun e : b = a => h (e ▸ hb)) m)

/-- A step to the left, and `ROL_op` upward behind it. -/
theorem left_carries {op : RmwOp} {a : U16} {addrs : List U16} {c : Int} {m : Machine}
    (hmem : a ∉ addrs)
    (hstep : 2 * ((m.RAM a).toNat : Int) + c = ((op.stepAt a m).RAM a).toNat +
      256 * carryIn (op.stepAt a m).registers.flags)
    {m' : Machine} (hm' : m' = (rotateChain .rol addrs (op.stepAt a m)).2)
    (hrest : Carries 256 (carryIn (op.stepAt a m).registers.flags)
      (addrs.map fun b => 2 * (((op.stepAt a m).RAM b).toNat : Int))
      (addrs.map fun b => ((m'.RAM b).toNat : Int)) (carryIn m'.registers.flags)) :
    Carries 256 c ((a :: addrs).map fun b => 2 * ((m.RAM b).toNat : Int))
      ((a :: addrs).map fun b => ((m'.RAM b).toNat : Int)) (carryIn m'.registers.flags) := by
  rw [map_stepAt op hmem m fun v => 2 * (v.toNat : Int)] at hrest
  have ha : m'.RAM a = (op.stepAt a m).RAM a := hm' ▸ rotateChain_of_notMem .rol hmem _
  refine .cons ?_ hrest
  dsimp only
  rw [ha]
  exact hstep

/-- `ROL_op` upward. -/
theorem rotateLeft_carries {addrs : List U16} (hnd : addrs.Nodup) (h : ∀ a ∈ addrs, a < 0x800)
    (m : Machine) {m' : Machine} (hm' : m' = (rotateChain .rol addrs m).2) :
    Carries 256 (carryIn m.registers.flags) (addrs.map fun a => 2 * ((m.RAM a).toNat : Int))
      (addrs.map fun a => ((m'.RAM a).toNat : Int)) (carryIn m'.registers.flags) := by
  induction addrs generalizing m with
  | nil => exact hm' ▸ .nil _
  | cons a addrs ih =>
    obtain ⟨hmem, hnd⟩ := List.nodup_cons.mp hnd
    exact left_carries hmem (rol_step (h a List.mem_cons_self) m) hm'
      (ih hnd (fun b hb => h b (List.mem_cons_of_mem a hb)) (RmwOp.rol.stepAt a m) hm')

/-- A step to the right, and `ROR_op` downward behind it.  Read upward, twice the bytes left take up
the bytes before and the carry that comes out. -/
theorem right_carries {op : RmwOp} {a : U16} {addrs : List U16} {c : Int} {m : Machine}
    (hmem : a ∉ addrs)
    (hstep : 256 * c + ((m.RAM a).toNat : Int) = 2 * ((op.stepAt a m).RAM a).toNat +
      carryIn (op.stepAt a m).registers.flags)
    {m' : Machine} (hm' : m' = (rotateChain .ror addrs (op.stepAt a m)).2)
    (hrest : Carries 256 (carryIn m'.registers.flags)
      (addrs.reverse.map fun b => 2 * ((m'.RAM b).toNat : Int) - ((op.stepAt a m).RAM b).toNat)
      (addrs.reverse.map fun _ => 0) (carryIn (op.stepAt a m).registers.flags)) :
    Carries 256 (carryIn m'.registers.flags)
      ((a :: addrs).reverse.map fun b => 2 * ((m'.RAM b).toNat : Int) - (m.RAM b).toNat)
      ((a :: addrs).reverse.map fun _ => 0) c := by
  have hbytes : (addrs.reverse.map fun b =>
        2 * ((m'.RAM b).toNat : Int) - ((op.stepAt a m).RAM b).toNat) =
      addrs.reverse.map fun b => 2 * ((m'.RAM b).toNat : Int) - (m.RAM b).toNat := by
    refine List.map_congr_left fun b hb => ?_
    have hne : b ≠ a := fun e => hmem (e ▸ List.mem_reverse.mp hb)
    rw [op.stepAt_of_ne hne m]
  have ha : m'.RAM a = (op.stepAt a m).RAM a := hm' ▸ rotateChain_of_notMem .ror hmem _
  rw [hbytes] at hrest
  simp only [List.reverse_cons, List.map_append, List.map_cons, List.map_nil]
  refine hrest.append (.one ?_)
  rw [ha]
  omega

/-- `ROR_op` downward. -/
theorem rotateRight_carries {addrs : List U16} (hnd : addrs.Nodup) (h : ∀ a ∈ addrs, a < 0x800)
    (m : Machine) {m' : Machine} (hm' : m' = (rotateChain .ror addrs m).2) :
    Carries 256 (carryIn m'.registers.flags)
      (addrs.reverse.map fun a => 2 * ((m'.RAM a).toNat : Int) - (m.RAM a).toNat)
      (addrs.reverse.map fun _ => 0) (carryIn m.registers.flags) := by
  induction addrs generalizing m with
  | nil => exact hm' ▸ .nil _
  | cons a addrs ih =>
    obtain ⟨hmem, hnd⟩ := List.nodup_cons.mp hnd
    exact right_carries hmem (ror_step (h a List.mem_cons_self) m) hm'
      (ih hnd (fun b hb => h b (List.mem_cons_of_mem a hb)) (RmwOp.ror.stepAt a m) hm')

/-- **A shift to the left** doubles the number. -/
theorem shiftLeft_exact {addrs : List U16} (hne : addrs ≠ []) (hnd : addrs.Nodup)
    (h : ∀ a ∈ addrs, a < 0x800) (m : Machine) :
    let m' := (shiftLeftChain addrs m).2
    m'.numberAt addrs = 2 * m.numberAt addrs % 256 ^ addrs.length ∧
      carryIn m'.registers.flags = (2 * m.numberAt addrs / 256 ^ addrs.length : Nat) := by
  intro m'
  -- the first step is one of the chain, with no carry into it
  have hcarries : Carries 256 0 (addrs.map fun a => 2 * ((m.RAM a).toNat : Int))
      (addrs.map fun a => ((m'.RAM a).toNat : Int)) (carryIn m'.registers.flags) := by
    obtain ⟨low, rest, rfl⟩ := List.exists_cons_of_ne_nil hne
    obtain ⟨hmem, hnd⟩ := List.nodup_cons.mp hnd
    have hstep := asl_step (h low List.mem_cons_self) m
    rw [← add_zero (2 * _)] at hstep
    exact left_carries hmem hstep rfl (rotateLeft_carries hnd
      (fun b hb => h b (List.mem_cons_of_mem low hb)) (RmwOp.asl.stepAt low m) rfl)
  have hvalue := hcarries.value_add
  rw [value_map_mul, value_toNat, value_toNat, List.length_map, add_zero] at hvalue
  have hlt := number_lt (addrs.map m'.RAM)
  rw [List.length_map] at hlt
  have hq := quotient_of_carries hlt (v := (2 * m.numberAt addrs : Nat)) (by exact_mod_cast hvalue)
  exact ⟨by exact_mod_cast hq.1, by exact_mod_cast hq.2⟩

/-- **A shift to the right** halves the number. -/
theorem shiftRight_exact {addrs : List U16} (hne : addrs ≠ []) (hnd : addrs.Nodup)
    (h : ∀ a ∈ addrs, a < 0x800) (m : Machine) :
    let m' := (shiftRightChain addrs.reverse m).2
    m'.numberAt addrs = m.numberAt addrs / 2 ∧
      carryIn m'.registers.flags = (m.numberAt addrs % 2 : Nat) := by
  intro m'
  have hcarries : Carries 256 (carryIn m'.registers.flags)
      (addrs.map fun a => 2 * ((m'.RAM a).toNat : Int) - (m.RAM a).toNat) (addrs.map fun _ => 0)
      0 := by
    obtain ⟨high, rest, hrev⟩ := List.exists_cons_of_ne_nil (mt List.reverse_eq_nil_iff.mp hne)
    have hnd' := List.nodup_reverse.mpr hnd
    have h' : ∀ a ∈ addrs.reverse, a < 0x800 := fun a ha => h a (List.mem_reverse.mp ha)
    have hm' : m' = (shiftRightChain (high :: rest) m).2 := hrev ▸ rfl
    rw [hrev] at hnd' h'
    obtain ⟨hmem, hnd'⟩ := List.nodup_cons.mp hnd'
    have hstep := lsr_step (h' high List.mem_cons_self) m
    rw [← zero_add ((m.RAM high).toNat : Int), ← mul_zero 256] at hstep
    have hall := right_carries hmem hstep hm' (rotateRight_carries hnd'
      (fun b hb => h' b (List.mem_cons_of_mem high hb)) (RmwOp.lsr.stepAt high m) hm')
    rwa [← hrev, List.reverse_reverse] at hall
  have hvalue := hcarries.value_add
  rw [value_map_sub, value_map_mul, value_toNat, value_toNat, value_map_zero, mul_zero,
    add_zero] at hvalue
  have hc := carryIn_eq m'.registers.flags
  have hm' : m'.numberAt addrs = number (addrs.map m'.RAM) := rfl
  have hm : m.numberAt addrs = number (addrs.map m.RAM) := rfl
  omega

/-! ### The four chains -/

/-- The top bit of a number of `n` bytes. -/
theorem testBit_top {a n : Nat} (hn : 0 < n) (ha : a < 256 ^ n) :
    a.testBit (8 * n - 1) = true ↔ 2 * a / 256 ^ n = 1 := by
  have hpow : 256 ^ n = 2 * 2 ^ (8 * n - 1) := by
    rw [← pow_succ', show (256 : Nat) = 2 ^ 8 from rfl, ← pow_mul]
    congr 1
    omega
  rw [hpow] at ha ⊢
  rw [Nat.testBit_eq_decide_div_mod_eq, decide_eq_true_iff,
    Nat.mul_div_mul_left _ _ (by omega : 0 < 2)]
  have hlt : a / 2 ^ (8 * n - 1) < 2 := Nat.div_lt_of_lt_mul (by omega)
  generalize a / 2 ^ (8 * n - 1) = q at hlt ⊢
  omega

/-- The carry flag, as a digit. -/
theorem carry_iff_carryIn (flags : U8) : hasFlag flags flagCarry ↔ carryIn flags = 1 := by
  unfold carryIn
  split <;> simp_all

/-- **Arithmetic through the carry is exact**, for numbers of any number of bytes: `ADC_op` adds,
`SBC_op` subtracts, `ASL_op` with `ROL_op` doubles and `LSR_op` with `ROR_op` halves, each with the
bits it has no room for in the carry. -/
theorem multiByte_exact (order : EvalOrder) (m : Machine) :
    (∀ ab : List (U8 × U8),
      let sum : Int :=
        number (ab.map Prod.fst) + number (ab.map Prod.snd) + carryIn m.registers.flags
      let r := arithChain .adc order ab m
      r.1.length = ab.length ∧ (number r.1 : Int) = sum % 256 ^ ab.length ∧
        carryIn r.2.registers.flags = sum / 256 ^ ab.length) ∧
    (∀ ab : List (U8 × U8),
      let difference : Int := number (ab.map Prod.fst) - number (ab.map Prod.snd) -
        (1 - carryIn m.registers.flags)
      let r := arithChain .sbc order ab m
      r.1.length = ab.length ∧ (number r.1 : Int) = difference % 256 ^ ab.length ∧
        (hasFlag r.2.registers.flags flagCarry ↔ 0 ≤ difference)) ∧
    ∀ addrs : List U16, addrs ≠ [] → addrs.Nodup → (∀ a ∈ addrs, a < 0x800) →
      (let m' := (shiftLeftChain addrs m).2
       m'.numberAt addrs = 2 * m.numberAt addrs % 256 ^ addrs.length ∧
        (hasFlag m'.registers.flags flagCarry ↔
          (m.numberAt addrs).testBit (8 * addrs.length - 1) = true)) ∧
      (let m' := (shiftRightChain addrs.reverse m).2
       m'.numberAt addrs = m.numberAt addrs / 2 ∧
        (hasFlag m'.registers.flags flagCarry ↔ (m.numberAt addrs).testBit 0 = true)) := by
  refine ⟨fun ab => arithChain_exact .adc order ab m, fun ab => ?_, fun addrs hne hnd h => ⟨?_, ?_⟩⟩
  · intro difference r
    obtain ⟨hlen, hnumber, hcarry⟩ := arithChain_exact .sbc order ab m
    refine ⟨hlen, hnumber, ?_⟩
    have hpos : (0 : Int) < 256 ^ ab.length := by positivity
    have hC := carryIn_eq r.2.registers.flags
    -- the quotient is the borrow
    replace hcarry : carryIn r.2.registers.flags - 1 = difference / 256 ^ ab.length := hcarry
    rw [carry_iff_carryIn, ← Int.ediv_nonneg_iff_of_pos hpos, ← hcarry]
    omega
  · obtain ⟨hnumber, hcarry⟩ := shiftLeft_exact hne hnd h m
    have hlt : m.numberAt addrs < 256 ^ addrs.length := by
      have hlt := number_lt (addrs.map m.RAM)
      rwa [List.length_map] at hlt
    refine ⟨hnumber, ?_⟩
    rw [carry_iff_carryIn, hcarry, testBit_top (List.length_pos_iff.mpr hne) hlt]
    exact_mod_cast Iff.rfl
  · obtain ⟨hnumber, hcarry⟩ := shiftRight_exact hne hnd h m
    refine ⟨hnumber, ?_⟩
    rw [carry_iff_carryIn, hcarry, Nat.testBit_zero, decide_eq_true_iff]
    exact_mod_cast Iff.rfl

/-- Two bytes at `0` and `1`, and the carry set. -/
def wordMachine : Machine :=
  { Machine.ofProgram [] ⟨0, 0, 0, 0x01, 0xFD, 0⟩ with
    RAM := fun a => if a = 0 then 0x81 else 0x40 }

/-- The addresses of the word. -/
def wordAddrs : List U16 := [0, 1]

/-- `2 * 0x4081` and `0x4081 / 2`. -/
theorem multiByte_exact_word :
    wordMachine.numberAt wordAddrs = 0x4081 ∧
      (shiftLeftChain wordAddrs wordMachine).2.numberAt wordAddrs =
        2 * wordMachine.numberAt wordAddrs % 256 ^ wordAddrs.length ∧
      (shiftRightChain wordAddrs.reverse wordMachine).2.numberAt wordAddrs =
        wordMachine.numberAt wordAddrs / 2 := by
  have hvalue : wordMachine.numberAt wordAddrs = 0x4081 := by decide +kernel
  have hram : ∀ a ∈ wordAddrs, a < 0x800 := by simp [wordAddrs]
  have hshift := (multiByte_exact .leftFirst wordMachine).2.2 wordAddrs (by decide) (by decide) hram
  exact ⟨hvalue, hshift.1.1, hshift.2.1⟩

end KernelNES.Emulator
