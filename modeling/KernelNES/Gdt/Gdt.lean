import KernelNES.Lib.CInt
import KernelNES.Lib.Records

/-!
# Gdt — Gdt

`src/gdt/gdt.c`: the descriptors of the kernel's segments, in the eight scattered bytes the
processor reads.  A limit is written as it is, or in units of 4096 bytes with the granularity bit
set.  `decodeGdtEntry` is the processor's reading; it gives back every descriptor that is not
rejected (`gdtCodec`).
-/

namespace KernelNES.Gdt
open KernelNES.Lib

/-- `struct gdt_structured`. -/
@[ext]
structure GdtStructured where
  base : U32
  limit : U32
  type : U8
  deriving DecidableEq, Repr

/-- Memory, from the start of an array of `struct gdt` on. -/
abbrev Bytes := Nat → U8

/-- `encodeGdtEntry`.  `none` is a `panic`, which does not return. -/
def encodeGdtEntry (mem : Bytes) (target : Nat) (source : GdtStructured) : Option Bytes :=
  if source.limit > 65536 ∧ source.limit &&& 0xFFF ≠ 0xFFF then none
  else
    let mem := Function.update mem (target + 6) 0x40
    let (source, mem) :=
      if source.limit > 65536 then
        ({ source with limit := source.limit >>> 12 }, Function.update mem (target + 6) 0xC0)
      else (source, mem)
    let mem := Function.update mem (target + 0) ((source.limit &&& 0xFF).setWidth 8)
    let mem := Function.update mem (target + 1) ((source.limit >>> 8 &&& 0xFF).setWidth 8)
    let mem := Function.update mem (target + 6)
      (mem (target + 6) ||| (source.limit >>> 16 &&& 0x0F).setWidth 8)
    let mem := Function.update mem (target + 2) ((source.base &&& 0xFF).setWidth 8)
    let mem := Function.update mem (target + 3) ((source.base >>> 8 &&& 0xFF).setWidth 8)
    let mem := Function.update mem (target + 4) ((source.base >>> 16 &&& 0xFF).setWidth 8)
    let mem := Function.update mem (target + 7) ((source.base >>> 24 &&& 0xFF).setWidth 8)
    some (Function.update mem (target + 5) source.type)

/-- The loop of `gdt_structured_to_gdt`: `n` entries are left, from index `i` on.  A `struct gdt`
has eight bytes. -/
def gdtStructuredToGdtLoop (structuredGdt : Nat → GdtStructured) :
    (n i : Nat) → Bytes → Option Bytes
  | 0, _, gdt => some gdt
  | n + 1, i, gdt => do
    let gdt ← encodeGdtEntry gdt (8 * i) (structuredGdt i)
    gdtStructuredToGdtLoop structuredGdt n (i + 1) gdt

/-- `gdt_structured_to_gdt`. -/
def gdtStructuredToGdt (gdt : Bytes) (structuredGdt : Nat → GdtStructured) (totalEntires : Int) :
    Option Bytes :=
  gdtStructuredToGdtLoop structuredGdt totalEntires.toNat 0 gdt

/-- The limit is not rejected. -/
def Accepted (source : GdtStructured) : Prop :=
  source.limit ≤ 65536 ∨ source.limit &&& 0xFFF = 0xFFF

instance (source : GdtStructured) : Decidable (Accepted source) :=
  inferInstanceAs (Decidable (_ ∨ _))

/-- A limit is refused when it takes pages, and is no whole number of them. -/
theorem not_accepted_iff {source : GdtStructured} :
    ¬ Accepted source ↔ source.limit > 65536 ∧ source.limit &&& 0xFFF ≠ 0xFFF := by
  rw [Accepted, not_or, BitVec.not_le]

/-- The processor's reading of an entry. -/
def decodeGdtEntry (entry : Fin 8 → U8) : GdtStructured where
  base := entry 7 ++ entry 4 ++ entry 3 ++ entry 2
  limit :=
    let limit : BitVec 20 := (entry 6).setWidth 4 ++ entry 1 ++ entry 0
    if entry 6 &&& 0x80 ≠ 0 then limit.setWidth 32 <<< 12 ||| 0xFFF else limit.setWidth 32
  type := entry 5

/-! ### The bytes of an entry -/

/-- The limit in the unit it is written in. -/
def GdtStructured.units (source : GdtStructured) : U32 :=
  if source.limit > 65536 then source.limit >>> 12 else source.limit

/-- The high half of byte 6. -/
def GdtStructured.highFlags (source : GdtStructured) : U8 :=
  if source.limit > 65536 then 0xC0 else 0x40

/-- The eight bytes of an entry. -/
def entryBytes (source : GdtStructured) : Fin 8 → U8
  | 0 => source.units.extractLsb' 0 8
  | 1 => source.units.extractLsb' 8 8
  | 2 => source.base.extractLsb' 0 8
  | 3 => source.base.extractLsb' 8 8
  | 4 => source.base.extractLsb' 16 8
  | 5 => source.type
  | 6 => source.highFlags ||| (source.units >>> 16 &&& 0x0F).setWidth 8
  | 7 => source.base.extractLsb' 24 8

/-- A byte of a word, as the code cuts it out. -/
theorem setWidth_ushiftRight (x : U32) (k : Nat) :
    (x >>> k &&& 0xFF).setWidth 8 = x.extractLsb' k 8 := by
  have hmask : (0xFF : U32).setWidth 8 = BitVec.allOnes 8 := by decide
  rw [BitVec.setWidth_and, hmask, BitVec.and_allOnes, BitVec.setWidth_ushiftRight_eq_extractLsb]

/-- A word is its four bytes. -/
theorem bytes_append (x : U32) :
    x.extractLsb' 24 8 ++ x.extractLsb' 16 8 ++ x.extractLsb' 8 8 ++ x.extractLsb' 0 8 = x := by
  rw [BitVec.extractLsb'_append_extractLsb'_eq_extractLsb' (show 24 = 16 + 8 by rfl),
    BitVec.extractLsb'_append_extractLsb'_eq_extractLsb' (show 16 = 8 + 8 by rfl),
    BitVec.extractLsb'_append_extractLsb'_eq_extractLsb' (show 8 = 0 + 8 by rfl)]
  exact BitVec.extractLsb'_eq_self

/-- What the stores make of an entry whose byte 6 has its high half. -/
theorem entryBytes_cells {source : GdtStructured} {limit : U32} {cells : Fin 8 → U8}
    (hlimit : source.units = limit) (hflags : cells 6 = source.highFlags) :
    let cells := Function.update cells 0 ((limit &&& 0xFF).setWidth 8)
    let cells := Function.update cells 1 ((limit >>> 8 &&& 0xFF).setWidth 8)
    let cells := Function.update cells 6 (cells 6 ||| (limit >>> 16 &&& 0x0F).setWidth 8)
    let cells := Function.update cells 2 ((source.base &&& 0xFF).setWidth 8)
    let cells := Function.update cells 3 ((source.base >>> 8 &&& 0xFF).setWidth 8)
    let cells := Function.update cells 4 ((source.base >>> 16 &&& 0xFF).setWidth 8)
    let cells := Function.update cells 7 ((source.base >>> 24 &&& 0xFF).setWidth 8)
    Function.update cells 5 source.type = entryBytes source := by
  subst hlimit
  funext k
  match k with
  | 0 => exact setWidth_ushiftRight source.units 0
  | 1 => exact setWidth_ushiftRight source.units 8
  | 2 => exact setWidth_ushiftRight source.base 0
  | 3 => exact setWidth_ushiftRight source.base 8
  | 4 => exact setWidth_ushiftRight source.base 16
  | 5 => rfl
  | 6 => exact congrArg (· ||| (source.units >>> 16 &&& 0x0F).setWidth 8) hflags
  | 7 => exact setWidth_ushiftRight source.base 24

/-- **One entry.**  Its eight bytes are those of the source, and no other byte is written. -/
theorem encodeGdtEntry_eq (mem : Bytes) (i : Nat) {source : GdtStructured} (h : Accepted source) :
    encodeGdtEntry mem (8 * i) source = some (writeSlot mem i (entryBytes source)) := by
  unfold encodeGdtEntry
  rw [if_neg fun hnot => not_accepted_iff.mpr hnot h]
  have hmem : mem = writeSlot mem i (readSlot 8 mem i) := (writeSlot_readSlot mem i).symm
  conv_lhs => rw [hmem]
  by_cases hgt : source.limit > 65536
  · simp (disch := decide) only [if_pos hgt, update_writeSlot, writeSlot_apply]
    exact congrArg some (congrArg (writeSlot mem i)
      (entryBytes_cells (if_pos hgt) (if_pos hgt).symm))
  · simp (disch := decide) only [if_neg hgt, update_writeSlot, writeSlot_apply]
    exact congrArg some (congrArg (writeSlot mem i)
      (entryBytes_cells (if_neg hgt) (if_neg hgt).symm))

/-! ### Reading an entry back -/

/-- The low half of byte 6 is the top of the limit. -/
theorem entryBytes_nibble (source : GdtStructured) :
    (entryBytes source 6).setWidth 4 = source.units.extractLsb' 16 4 := by
  show (source.highFlags ||| (source.units >>> 16 &&& 0x0F).setWidth 8).setWidth 4 = _
  have hflags : source.highFlags.setWidth 4 = 0#4 := by
    unfold GdtStructured.highFlags
    split <;> rfl
  have hmask : (0x0F : U32).setWidth 4 = BitVec.allOnes 4 := by decide
  rw [BitVec.setWidth_or, hflags, BitVec.zero_or, BitVec.setWidth_setWidth_of_le _ (by decide),
    BitVec.setWidth_and, hmask, BitVec.and_allOnes, BitVec.setWidth_ushiftRight_eq_extractLsb]

/-- The granularity bit is that of the high half. -/
theorem entryBytes_granularity (source : GdtStructured) :
    entryBytes source 6 &&& 0x80 = source.highFlags &&& 0x80 := by
  show (source.highFlags ||| (source.units >>> 16 &&& 0x0F).setWidth 8) &&& 0x80 = _
  have hmask : (0x0F : U32).setWidth 8 &&& 0x80 = 0#8 := by decide
  rw [BitVec.and_or_distrib_right, BitVec.setWidth_and, BitVec.and_assoc, hmask, BitVec.and_zero,
    BitVec.or_zero]

/-- The units of a limit fit in 20 bits. -/
theorem units_lt (source : GdtStructured) : source.units.toNat < 2 ^ 20 := by
  unfold GdtStructured.units
  split
  · rw [BitVec.toNat_ushiftRight, Nat.shiftRight_eq_div_pow]
    have := source.limit.isLt
    omega
  · rename_i h
    have hle : source.limit.toNat ≤ 65536 := BitVec.le_def.mp (BitVec.not_lt.mp h)
    omega

/-- The twenty bits of the limit. -/
theorem entryBytes_limit (source : GdtStructured) :
    ((entryBytes source 6).setWidth 4 ++ entryBytes source 1 ++ entryBytes source 0 :
      BitVec 20).setWidth 32 = source.units := by
  rw [entryBytes_nibble]
  show (source.units.extractLsb' 16 4 ++ source.units.extractLsb' 8 8 ++
    source.units.extractLsb' 0 8 : BitVec 20).setWidth 32 = _
  rw [BitVec.extractLsb'_append_extractLsb'_eq_extractLsb' (show 16 = 8 + 8 by rfl),
    BitVec.extractLsb'_append_extractLsb'_eq_extractLsb' (show 8 = 0 + 8 by rfl)]
  refine BitVec.eq_of_toNat_eq ?_
  have := units_lt source
  simp
  omega

/-- A limit whose low twelve bits are ones is given back by its units. -/
theorem units_scaled {limit : U32} (h : limit &&& 0xFFF = 0xFFF) :
    limit >>> 12 <<< 12 ||| 0xFFF = limit := by
  have hmask : (0xFFF : U32) = (BitVec.allOnes 12).setWidth 32 := by decide
  ext i hi
  have hbit := congrArg (fun x : U32 => x[i]) h
  simp only [hmask, BitVec.getElem_and, BitVec.getElem_or, BitVec.getElem_setWidth,
    BitVec.getLsbD_allOnes, BitVec.getElem_shiftLeft] at hbit ⊢
  by_cases hlow : i < 12
  · simp [hlow] at hbit ⊢
    exact hbit
  · have hup : 12 + (i - 12) = i := by omega
    simp [hlow, hup, BitVec.getLsbD_eq_getElem hi]

/-- The limit is read back. -/
theorem decodeGdtEntry_limit {source : GdtStructured} (h : Accepted source) :
    (decodeGdtEntry (entryBytes source)).limit = source.limit := by
  show (if entryBytes source 6 &&& 0x80 ≠ 0 then
    ((entryBytes source 6).setWidth 4 ++ entryBytes source 1 ++ entryBytes source 0 :
      BitVec 20).setWidth 32 <<< 12 ||| 0xFFF else _) = _
  rw [entryBytes_granularity, entryBytes_limit]
  by_cases hgt : source.limit > 65536
  · have hflags : source.highFlags &&& 0x80 ≠ 0 := by
      rw [GdtStructured.highFlags, if_pos hgt]
      decide
    have hones : source.limit &&& 0xFFF = 0xFFF := h.resolve_left (BitVec.not_le.mpr hgt)
    rw [if_pos hflags, GdtStructured.units, if_pos hgt, units_scaled hones]
  · have hflags : ¬ source.highFlags &&& 0x80 ≠ 0 := by
      rw [GdtStructured.highFlags, if_neg hgt]
      decide
    rw [if_neg hflags, GdtStructured.units, if_neg hgt]

/-- The entries as records: every descriptor that is not rejected is read back. -/
def gdtCodec : Codec GdtStructured U8 8 where
  encode := entryBytes
  decode := decodeGdtEntry
  Valid := Accepted
  decode_encode h := GdtStructured.ext (bytes_append _) (decodeGdtEntry_limit h) rfl

/-! ### The table -/

section
variable {structuredGdt : Nat → GdtStructured}

/-- The loop fills the table with the encoded segments. -/
theorem gdtStructuredToGdtLoop_eq {n i : Nat} (gdt : Bytes)
    (h : ∀ j, i ≤ j → j < i + n → Accepted (structuredGdt j)) :
    gdtStructuredToGdtLoop structuredGdt n i gdt =
      some (fill gdtCodec.encode structuredGdt n i gdt) := by
  induction n generalizing i gdt with
  | zero => rfl
  | succ n ih =>
      rw [gdtStructuredToGdtLoop, encodeGdtEntry_eq gdt i (h i le_rfl (by omega))]
      exact ih _ fun j hi hj => h j (by omega) (by omega)

/-- A rejected limit is a panic, wherever it is. -/
theorem gdtStructuredToGdtLoop_rejected {n i j : Nat} (gdt : Bytes) (hi : i ≤ j) (hj : j < i + n)
    (hrejected : ¬ Accepted (structuredGdt j)) :
    gdtStructuredToGdtLoop structuredGdt n i gdt = none := by
  induction n generalizing i gdt with
  | zero => omega
  | succ n ih =>
      rw [gdtStructuredToGdtLoop]
      by_cases ha : Accepted (structuredGdt i)
      · have hne : i ≠ j := fun e => hrejected (e ▸ ha)
        rw [encodeGdtEntry_eq gdt i ha]
        exact ih _ (by omega) (by omega)
      · rw [encodeGdtEntry, if_pos (not_accepted_iff.mp ha)]
        rfl

/-- A table that is made is the encoding of accepted segments. -/
theorem gdtStructuredToGdt_eq {gdt gdt' : Bytes} {totalEntires : Int}
    (h : gdtStructuredToGdt gdt structuredGdt totalEntires = some gdt') :
    (∀ i < totalEntires.toNat, Accepted (structuredGdt i)) ∧
      gdt' = fill gdtCodec.encode structuredGdt totalEntires.toNat 0 gdt := by
  have hall : ∀ i < totalEntires.toNat, Accepted (structuredGdt i) := by
    intro i hi
    by_contra hrejected
    have hlt : i < 0 + totalEntires.toNat := by omega
    have hnone : gdtStructuredToGdt gdt structuredGdt totalEntires = none :=
      gdtStructuredToGdtLoop_rejected gdt (Nat.zero_le i) hlt hrejected
    rw [hnone] at h
    cases h
  have hloop : gdtStructuredToGdt gdt structuredGdt totalEntires = _ :=
    gdtStructuredToGdtLoop_eq gdt fun i _ hi => hall i (by omega)
  exact ⟨hall, Option.some.inj (h.symm.trans hloop)⟩

/-- **Nothing is lost**: if no limit is rejected, every entry written is read back as its
descriptor, and is the same in every table that has this descriptor at its index. -/
theorem gdt_round_trip (gdt : Bytes) {totalEntires : Int}
    (haccepted : ∀ i < totalEntires.toNat, Accepted (structuredGdt i)) :
    ∃ gdt', gdtStructuredToGdt gdt structuredGdt totalEntires = some gdt' ∧
      (∀ i < totalEntires.toNat, decodeGdtEntry (readSlot 8 gdt' i) = structuredGdt i) ∧
      ∀ (other other' : Bytes) (structuredOther : Nat → GdtStructured) (totalOther : Int),
        gdtStructuredToGdt other structuredOther totalOther = some other' →
        ∀ i < totalEntires.toNat, i < totalOther.toNat → structuredOther i = structuredGdt i →
          readSlot 8 other' i = readSlot 8 gdt' i := by
  refine ⟨_, gdtStructuredToGdtLoop_eq gdt fun j _ hj => haccepted j (by omega), fun i hi => ?_, ?_⟩
  · exact gdtCodec.decode_fill structuredGdt gdt hi (haccepted i hi)
  · intro other other' structuredOther totalOther hother i hi hi' hsame
    rw [(gdtStructuredToGdt_eq hother).2, readSlot_fill, readSlot_fill, if_pos (by omega),
      if_pos (by omega), hsame]

end

/-- The segments of the kernel: none, code, data, and three that are left empty. -/
def kernelSegments : Nat → GdtStructured
  | 1 => ⟨0x00, 0xffffffff, 0x9a⟩
  | 2 => ⟨0x00, 0xffffffff, 0x92⟩
  | _ => ⟨0x00, 0x00, 0x00⟩

theorem gdt_round_trip_kernelSegments :
    ∃ gdt', gdtStructuredToGdt (fun _ => 0) kernelSegments 6 = some gdt' ∧
      ∀ i < 6, decodeGdtEntry (readSlot 8 gdt' i) = kernelSegments i := by
  have haccepted : ∀ i < (6 : Int).toNat, Accepted (kernelSegments i) := by decide
  obtain ⟨gdt', hrun, hdecode, -⟩ := gdt_round_trip (fun _ => 0) haccepted
  exact ⟨gdt', hrun, hdecode⟩

end KernelNES.Gdt
