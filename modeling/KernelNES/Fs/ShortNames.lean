import KernelNES.Fs.Lookup
import Mathlib.Data.List.TakeWhile

/-!
# Fs — ShortNames

The 8.3 names of the slots whose two name fields are padded with spaces.  Such a slot is matched by
the component that spells its name, up to the case of the letters, and by no other
(`shortName_matched_exactly`).
-/

namespace KernelNES.Fs
open KernelNES.Lib KernelNES.Memory

/-! ### Letters -/

/-- An ASCII letter in lower case; any other character as it is. -/
def asciiLower (c : U8) : U8 := if 0x41 ≤ c.toNat ∧ c.toNat ≤ 0x5A then c + 0x20 else c

/-- The names agree up to the case of ASCII letters. -/
def SameLetters (a b : Name) : Prop := a.map asciiLower = b.map asciiLower

instance (a b : Name) : Decidable (SameLetters a b) := inferInstanceAs (Decidable (_ = _))

/-- The characters from `0x80` on are negative, and no letters either way. -/
theorem tolower_eq_asciiLower : tolower = asciiLower := by
  funext c
  have hsign : (65 ≤ c.toInt ∧ c.toInt ≤ 90) ↔ (0x41 ≤ c.toNat ∧ c.toNat ≤ 0x5A) := by
    rw [BitVec.toInt_eq_toNat_cond]
    have := c.isLt
    split <;> omega
  unfold tolower asciiLower
  split <;> rename_i h
  · rw [if_pos (hsign.mp h)]
  · rw [if_neg (hsign.not.mp h)]

/-- C's comparison ignores the case of letters. -/
theorem sameUpToCase_iff (a b : Name) : SameUpToCase a b ↔ SameLetters a b := by
  rw [SameUpToCase, SameLetters, tolower_eq_asciiLower]

theorem SameLetters.length {a b : Name} (h : SameLetters a b) : a.length = b.length := by
  simpa using congrArg List.length h

/-- A dot is no letter. -/
theorem asciiLower_eq_dot {c : U8} : asciiLower c = 0x2E ↔ c = 0x2E := by
  revert c
  decide

/-! ### Dotted names -/

/-- A name and its extension: a dot stands between them when there is an extension. -/
def dotted (b e : Name) : Name := if e = [] then b else b ++ 0x2E :: e

theorem map_dotted (b e : Name) :
    (dotted b e).map asciiLower = dotted (b.map asciiLower) (e.map asciiLower) := by
  by_cases he : e = []
  · simp [dotted, he]
  · simp only [dotted, he, if_false, List.map_append, List.map_cons, List.map_eq_nil_iff]
    rw [asciiLower_eq_dot.mpr rfl]

/-- The characters up to the first dot are the name. -/
theorem takeWhile_dotted {b : Name} (hb : 0x2E ∉ b) (e : Name) :
    (dotted b e).takeWhile (· ≠ 0x2E) = b := by
  have hall : ∀ c ∈ b, decide (c ≠ 0x2E) = true := fun c hc =>
    decide_eq_true fun h => hb (h ▸ hc)
  unfold dotted
  split
  · exact List.takeWhile_eq_self_iff.mpr hall
  · rw [List.takeWhile_append_of_pos hall, List.takeWhile_cons_of_neg (by simp), List.append_nil]

/-- A dotted name is read one way. -/
theorem dotted_inj {b b' e e' : Name} (hb : 0x2E ∉ b) (hb' : 0x2E ∉ b')
    (h : dotted b e = dotted b' e') : b = b' ∧ e = e' := by
  have hbase : b = b' := by
    rw [← takeWhile_dotted hb e, h, takeWhile_dotted hb' e']
  subst hbase
  refine ⟨rfl, ?_⟩
  unfold dotted at h
  by_cases he : e = []
  · by_cases he' : e' = []
    · rw [he, he']
    · simp [he, he'] at h
  · by_cases he' : e' = []
    · simp [he, he'] at h
    · rw [if_neg he, if_neg he'] at h
      exact List.tail_eq_of_cons_eq (List.append_cancel_left h)

/-- Letters do not make or unmake a dot, so up to case too. -/
theorem sameLetters_dotted {b b' e e' : Name} (hb : 0x2E ∉ b) (hb' : 0x2E ∉ b')
    (h : SameLetters (dotted b e) (dotted b' e')) : SameLetters b b' ∧ SameLetters e e' := by
  have hmap : ∀ {l : Name}, 0x2E ∉ l → 0x2E ∉ l.map asciiLower := by
    intro l hl hmem
    obtain ⟨c, hc, hdot⟩ := List.mem_map.mp hmem
    exact hl (asciiLower_eq_dot.mp hdot ▸ hc)
  rw [SameLetters, map_dotted, map_dotted] at h
  exact dotted_inj (hmap hb) (hmap hb') h

/-! ### Padded fields -/

/-- A character of an 8.3 name. -/
def NameChar (c : U8) : Prop := c ≠ 0x00 ∧ c ≠ 0x20 ∧ c ≠ 0x2E

instance (c : U8) : Decidable (NameChar c) := inferInstanceAs (Decidable (_ ∧ _ ∧ _))

/-- The characters, and spaces up to the width of the field. -/
def padded (width : Nat) (part : Name) : List U8 :=
  part ++ List.replicate (width - part.length) 0x20

/-- The first 11 bytes of the slot are the name `b` and the extension `e`, each padded. -/
structure Spells (slot : List U8) (b e : Name) : Prop where
  base_pos : 0 < b.length
  base_le : b.length ≤ 8
  ext_le : e.length ≤ 3
  base_chars : ∀ c ∈ b, NameChar c
  ext_chars : ∀ c ∈ e, NameChar c
  fields : slot.take 11 = padded 8 b ++ padded 3 e

theorem padded_length {width : Nat} {part : Name} (h : part.length ≤ width) :
    (padded width part).length = width := by
  simp [padded]
  omega

/-- A name is cut at its padding. -/
theorem takeWhile_padded (width : Nat) {part : Name} (h : ∀ c ∈ part, NameChar c) :
    (padded width part).takeWhile inPart = part := by
  have hall : ∀ c ∈ part, inPart c = true := fun c hc => by
    simpa [inPart] using ⟨(h c hc).1, (h c hc).2.1⟩
  rw [padded, List.takeWhile_append_of_pos hall, List.takeWhile_replicate]
  simp [inPart]

theorem NameChar.dot_notMem {part : Name} (h : ∀ c ∈ part, NameChar c) : 0x2E ∉ part :=
  fun hdot => (h 0x2E hdot).2.2 rfl

/-- The name of a slot. -/
theorem Spells.filename {slot : List U8} {b e : Name} (h : Spells slot b e) :
    (FatDirectoryItem.ofBytes slot).filename = padded 8 b := by
  have htake : slot.take 8 = (slot.take 11).take 8 := by simp [List.take_take]
  rw [FatDirectoryItem.ofBytes, htake, h.fields, List.take_left' (padded_length h.base_le)]

/-- The extension of a slot. -/
theorem Spells.ext {slot : List U8} {b e : Name} (h : Spells slot b e) :
    (FatDirectoryItem.ofBytes slot).ext = padded 3 e := by
  have hdrop : (slot.drop 8).take 3 = (slot.take 11).drop 8 := by rw [List.drop_take]
  rw [FatDirectoryItem.ofBytes, hdrop, h.fields, List.drop_left' (padded_length h.base_le)]

/-- The driver prints the name the slot spells. -/
theorem Spells.shortName {slot : List U8} {b e : Name} (h : Spells slot b e) :
    shortName (.ofBytes slot) = dotted b e := by
  rw [Fs.shortName, h.filename, h.ext, takeWhile_padded 8 h.base_chars,
    takeWhile_padded 3 h.ext_chars]
  rfl

/-- A slot has the name it spells, up to case. -/
theorem Spells.named_iff {slot : List U8} {b e : Name} (h : Spells slot b e) {name : Name}
    (hname : 0 ∉ name) :
    (FatDirectoryItem.ofBytes slot).Named name ↔ SameLetters (dotted b e) name := by
  rw [Fs.named_iff slot hname, sameUpToCase_iff, h.shortName]

/-- Names that agree up to case are padded to fields that do. -/
theorem SameLetters.padded {part part' : Name} (h : SameLetters part part') (width : Nat) :
    SameLetters (padded width part) (padded width part') := by
  simp only [SameLetters] at h
  simp [SameLetters, Fs.padded, h, SameLetters.length h]

/-- Slots with one name have the same letters. -/
theorem Spells.sameLetters {slot slot' : List U8} {b b' e e' : Name} (h : Spells slot b e)
    (h' : Spells slot' b' e') (hsame : SameLetters (dotted b e) (dotted b' e')) :
    SameLetters (slot.take 11) (slot'.take 11) := by
  obtain ⟨hbase, hext⟩ := sameLetters_dotted (NameChar.dot_notMem h.base_chars)
    (NameChar.dot_notMem h'.base_chars) hsame
  rw [h.fields, h'.fields, SameLetters, List.map_append, List.map_append]
  exact congrArg₂ _ (hbase.padded 8) (hext.padded 3)

/-! ### Matching -/

/-- **A slot is matched exactly by its name**, up to the case of the letters; and two slots that
match a common component have the same 11 bytes, up to case.  The component may be of any length. -/
theorem shortName_matched_exactly {slot : List U8} {b e name : Name} (hslot : Spells slot b e)
    (hzero : 0 ∉ name) :
    (istrncmp (fat16GetFullRelativeFilename (.ofBytes slot)) name peachosMaxPath = 0 ↔
      SameLetters name (if e = [] then b else b ++ 0x2E :: e)) ∧
    ∀ (slot' : List U8) (b' e' : Name), Spells slot' b' e' →
      istrncmp (fat16GetFullRelativeFilename (.ofBytes slot)) name peachosMaxPath = 0 →
      istrncmp (fat16GetFullRelativeFilename (.ofBytes slot')) name peachosMaxPath = 0 →
      SameLetters (slot.take 11) (slot'.take 11) := by
  refine ⟨(hslot.named_iff hzero).trans eq_comm, ?_⟩
  intro slot' b' e' hslot' hmatch hmatch'
  have hsame := (hslot.named_iff hzero).mp hmatch
  have hsame' := (hslot'.named_iff hzero).mp hmatch'
  exact hslot.sameLetters hslot' (hsame.trans hsame'.symm)

/-- `NES     TXT` is `nes.txt`. -/
theorem nes_txt_matched :
    istrncmp (fat16GetFullRelativeFilename (.ofBytes
        [0x4E, 0x45, 0x53, 0x20, 0x20, 0x20, 0x20, 0x20, 0x54, 0x58, 0x54]))
      [0x6E, 0x65, 0x73, 0x2E, 0x74, 0x78, 0x74] peachosMaxPath = 0 := by
  have hslot : Spells [0x4E, 0x45, 0x53, 0x20, 0x20, 0x20, 0x20, 0x20, 0x54, 0x58, 0x54]
      [0x4E, 0x45, 0x53] [0x54, 0x58, 0x54] :=
    ⟨by decide, by decide, by decide, by decide, by decide, by decide⟩
  exact (shortName_matched_exactly hslot (by decide)).1.mpr (by decide)

end KernelNES.Fs
