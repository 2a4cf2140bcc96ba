import KernelNES.Fs.ClusterRead

/-!
# Fs — DirectoryLoad

Loading a directory is two passes.  `fat16_get_total_items_for_directory` streams the slots that
follow the directory's first one on the disk, up to the first that starts with a zero byte, and
counts those that are not deleted (`SlotCount`, `getTotalItems_eq_ok`).  `fat16_get_root_directory`
and `fat16_load_fat_directory` then read as many slots as were counted, or as many as the root has
room for, from the directory itself (`getRootDirectory_eq_ok`, `loadFatDirectory_eq_ok`).
-/

namespace KernelNES.Fs
open KernelNES.Lib KernelNES.Memory

/-! ### Counting -/

/-- The first byte of the `m`-th slot from position `p` on. -/
def slotMark (disk : Disk) (p : Int) (m : Nat) : U8 := byteAt disk (p + sizeofItem * m)

theorem slotMark_zero (disk : Disk) (p : Int) : slotMark disk p 0 = byteAt disk p := by
  simp [slotMark]

theorem slotPos_succ (p : Int) (m : Nat) :
    p + sizeofItem * ((m + 1 : Nat) : Int) = p + sizeofItem + sizeofItem * (m : Int) := by
  push_cast; ring

theorem slotMark_succ (disk : Disk) (p : Int) (m : Nat) :
    slotMark disk p (m + 1) = slotMark disk (p + sizeofItem) m := by
  rw [slotMark, slotMark, slotPos_succ]

/-- From position `p` on, the disk has `n` slots in use, `T` of them not deleted, and then one that
is not; each is read from a sound position. -/
structure SlotCount (disk : Disk) (p : Int) (n T : Nat) : Prop where
  used : ∀ m < n, slotMark disk p m ≠ 0
  terminator : slotMark disk p n = 0
  sound : ∀ m : Nat, m ≤ n → Sound (wrap32 (p + sizeofItem * m))
  count : T = (List.range n).countP fun m => slotMark disk p m ≠ 0xE5

section
variable {disk : Disk} {p : Int} {n T : Nat}

/-- No slot, and the end mark behind. -/
theorem slotCount_zero :
    SlotCount disk p 0 T ↔ Sound (wrap32 p) ∧ byteAt disk p = 0 ∧ T = 0 := by
  rw [← slotMark_zero]
  constructor
  · intro h
    exact ⟨by simpa using h.sound 0 le_rfl, h.terminator, by simpa using h.count⟩
  · rintro ⟨hs, h₀, rfl⟩
    exact ⟨by simp, h₀, by simpa using hs, by simp⟩

/-- One slot more. -/
theorem slotCount_succ :
    SlotCount disk p (n + 1) T ↔ Sound (wrap32 p) ∧ byteAt disk p ≠ 0 ∧
      ∃ T', SlotCount disk (p + sizeofItem) n T' ∧
        T = if byteAt disk p = 0xE5 then T' else T' + 1 := by
  rw [← slotMark_zero]
  have hcount : (List.range (n + 1)).countP (fun m => slotMark disk p m ≠ 0xE5) =
      if slotMark disk p 0 = 0xE5 then
        (List.range n).countP fun m => slotMark disk (p + sizeofItem) m ≠ 0xE5
      else (List.range n).countP (fun m => slotMark disk (p + sizeofItem) m ≠ 0xE5) + 1 := by
    rw [List.range_succ_eq_map, List.countP_cons, List.countP_map]
    simp only [Function.comp_def, Nat.succ_eq_add_one, slotMark_succ]
    split <;> simp_all
  -- the slots behind the first are those from the next slot on
  constructor
  · intro h
    refine ⟨by simpa using h.sound 0 (by omega), h.used 0 (by omega), _,
      ⟨fun m hm => ?_, ?_, fun m hm => ?_, rfl⟩, by rw [h.count, hcount]⟩
    · rw [← slotMark_succ]; exact h.used (m + 1) (by omega)
    · rw [← slotMark_succ]; exact h.terminator
    · rw [← slotPos_succ]; exact h.sound (m + 1) (by omega)
  · rintro ⟨hs, h₀, T', h, hT⟩
    refine ⟨fun m hm => ?_, by rw [slotMark_succ]; exact h.terminator, fun m hm => ?_, ?_⟩
    · cases m with
      | zero => exact h₀
      | succ m => rw [slotMark_succ]; exact h.used m (by omega)
    · cases m with
      | zero => simpa using hs
      | succ m => rw [slotPos_succ]; exact h.sound m (by omega)
    · rw [hT, hcount, h.count]

/-- The count does not depend on who counts. -/
theorem SlotCount.unique {n' T' : Nat} (h : SlotCount disk p n T) (h' : SlotCount disk p n' T') :
    T = T' := by
  have hn : n = n' := by
    rcases Nat.lt_trichotomy n n' with hlt | rfl | hlt
    · exact absurd h.terminator (h'.used n hlt)
    · rfl
    · exact absurd h'.terminator (h.used n' hlt)
  rw [h.count, h'.count, hn]

/-- The slots that can be read from a sector on before the position of the stream turns negative. -/
theorem SlotCount.lt (h : SlotCount disk p n T) (hp : p % 512 = 0) (h₁ : -2 ^ 31 ≤ p)
    (h₂ : p < 2 ^ 31) : n < 2 ^ 26 + 1 := by
  by_contra hn
  -- the slot behind the first one at a negative position
  rcases Int.lt_or_le p 0 with hneg | hpos
  · have hs := h.sound 1 (by omega)
    rw [wrap32_eq_self (by simp only [sizeofItem]; omega) (by simp only [sizeofItem]; omega)] at hs
    simp only [Sound, sizeofItem] at hs
    omega
  · have hs := h.sound ((2 ^ 31 - p) / 32 + 1).toNat (by omega)
    have hw : wrap32 (p + sizeofItem * (((2 ^ 31 - p) / 32 + 1).toNat : Int)) = -2 ^ 31 + 32 := by
      obtain ⟨k, hk, hk₁, hk₂⟩ :=
        wrap32_cases (p + sizeofItem * (((2 ^ 31 - p) / 32 + 1).toNat : Int))
      simp only [sizeofItem] at hk hk₁ hk₂ ⊢
      omega
    rw [hw] at hs
    simp only [Sound] at hs
    omega

end

/-! ### The counting pass -/

theorem bytesAt_headD (disk : Disk) (p : Int) :
    (bytesAt disk p sizeofItem).headD 0 = byteAt disk p := by
  simp [bytesAt, sizeofItem, List.range_succ_eq_map]

section
variable {H : Type} {disk : Disk} {s : KState H} {p : Int}

/-- The stream reads the next slot. -/
theorem streamRead_slot (hs : s.pos .directory = wrap32 p) (hsound : Sound (wrap32 p)) :
    streamRead disk .directory sizeofItem s = .ok ((0, bytesAt disk p sizeofItem),
      { s with pos := Function.update s.pos .directory (wrap32 (p + sizeofItem)) }) := by
  have hread := diskstreamerRead_spec disk hsound (le_wrap32 _) (wrap32_lt _)
    (show (0 : Int) ≤ sizeofItem by decide) (by decide)
  rw [bytesAt_wrap32, wrap32_wrap32_add] at hread
  simp only [streamRead, hs, hread]
  rfl

/-- A position that wraps faults. -/
theorem streamRead_unsound (hs : s.pos .directory = wrap32 p) (hsound : ¬ Sound (wrap32 p)) :
    streamRead disk .directory sizeofItem s = .error .outOfBounds := by
  have hread := diskstreamerRead_unsound disk hsound (show (0 : Int) < sizeofItem by decide)
  simp only [streamRead, hs, hread]

theorem ite_count (disk : Disk) (fuel i : Nat) (mark : U8) :
    fat16GetTotalItemsLoop (H := H) disk fuel (if mark = 0xE5 then i else i + 1) =
      if mark = 0xE5 then fat16GetTotalItemsLoop disk fuel i
      else fat16GetTotalItemsLoop disk fuel (i + 1) := by
  split <;> rfl

/-- The counting pass from a slot on.  It ends without a fault only at a terminating slot. -/
theorem totalItemsLoop_eq_ok (fuel : Nat) {i : Nat} {r : Int} (hs : s.pos .directory = wrap32 p) :
    (∃ s', fat16GetTotalItemsLoop disk fuel i s = .ok (r, s')) ↔
      ∃ n T, n < fuel ∧ SlotCount disk p n T ∧ r = (i + T : Nat) := by
  induction fuel generalizing p s i with
  | zero =>
    constructor
    · rintro ⟨s', h⟩; cases h
    · rintro ⟨n, T, h, -⟩; omega
  | succ fuel ih =>
    by_cases hsound : Sound (wrap32 p)
    · rw [fat16GetTotalItemsLoop, Exec.bind_ok (streamRead_slot hs hsound)]
      simp only [ne_eq, not_true_eq_false, if_false, bytesAt_headD]
      by_cases h₀ : byteAt disk p = 0
      · -- the terminator
        rw [if_pos h₀]
        constructor
        · rintro ⟨s', h⟩
          cases h
          exact ⟨0, 0, by omega, slotCount_zero.mpr ⟨hsound, h₀, rfl⟩, by simp⟩
        · rintro ⟨n, T, hn, hc, rfl⟩
          cases n with
          | zero => obtain ⟨-, -, rfl⟩ := slotCount_zero.mp hc; exact ⟨_, rfl⟩
          | succ n => exact absurd h₀ (slotCount_succ.mp hc).2.1
      · have hs' : (Function.update s.pos .directory (wrap32 (p + sizeofItem))) .directory =
            wrap32 (p + sizeofItem) := Function.update_self ..
        rw [if_neg h₀, ← ite_count]
        refine (ih hs').trans ⟨?_, ?_⟩
        · rintro ⟨n, T, hn, hc, rfl⟩
          refine ⟨n + 1, _, by omega, slotCount_succ.mpr ⟨hsound, h₀, T, hc, rfl⟩, ?_⟩
          split <;> push_cast <;> ring
        · rintro ⟨n, T, hn, hc, rfl⟩
          cases n with
          | zero => exact absurd (slotCount_zero.mp hc).2.1 h₀
          | succ n =>
            obtain ⟨-, -, T', hc', rfl⟩ := slotCount_succ.mp hc
            refine ⟨n, T', by omega, hc', ?_⟩
            split <;> push_cast <;> ring
    · rw [fat16GetTotalItemsLoop, Exec.bind_error (streamRead_unsound hs hsound)]
      constructor
      · rintro ⟨s', h⟩; cases h
      · rintro ⟨n, T, -, hc, -⟩
        exact absurd (by simpa using hc.sound 0 (by omega)) hsound

/-- The position the counting pass starts from. -/
theorem directoryStartPos_eq (sector : Int) :
    (BitVec.ofInt 32 sector * 512).toInt = wrap32 (sector * 512) := by
  rw [BitVec.toInt_mul, BitVec.toInt_ofInt]
  exact Int.bmod_mul_bmod

/-- **The counting pass returns the number of slots that are not deleted before the first one that
is not in use**, and otherwise does not return. -/
theorem getTotalItems_eq_ok (disk : Disk) (sector r : Int) (s : KState H) :
    (∃ s', fat16GetTotalItemsForDirectory disk (BitVec.ofInt 32 sector) s = .ok (r, s')) ↔
      ∃ n T : Nat, SlotCount disk (wrap32 (sector * 512)) n T ∧ r = T := by
  have hs : (Function.update s.pos .directory (BitVec.ofInt 32 sector * 512).toInt) .directory =
      wrap32 (wrap32 (sector * 512)) := by
    rw [Function.update_self, directoryStartPos_eq, wrap32_wrap32]
  refine (totalItemsLoop_eq_ok totalItemsFuel hs).trans ⟨?_, ?_⟩
  · rintro ⟨n, T, -, hc, rfl⟩
    exact ⟨n, T, hc, by simp⟩
  · rintro ⟨n, T, hc, rfl⟩
    have hn := hc.lt (by rw [wrap32_emod _ (by decide)]; omega) (le_wrap32 _) (wrap32_lt _)
    exact ⟨n, T, by simp only [totalItemsFuel]; omega, hc, by simp⟩

end

/-! ### Reading a chain from its start -/

section
variable {H : Type} {vol : Volume} {c : Int}

/-- The start of a cluster is a sound position, also where positions wrap around. -/
theorem sound_clusterPos (vol : Volume) (c : Int) :
    Sound (wrap32 (clusterPos vol c + (0 : Nat))) := by
  have := clusterPos_emod vol c
  right
  rw [wrap32_emod _ (by decide)]
  omega

/-- A cluster of the chain is found from every state. -/
theorem getCluster_settles (h₀ : 0 ≤ c) (h₁ : c < 2 ^ 16) (hC : 0 < clusterBytes vol) (j : Nat) :
    Settles (fat16GetClusterForOffset (H := H) vol c ((j * clusterBytes vol : Nat) : Int))
      (.ok (clusterAhead vol j c)) := by
  have h := fat16GetClusterForOffset_settles (H := H) vol h₀ h₁ ((j * clusterBytes vol : Nat) : Int)
    (by rw [sizeOfClusterBytes_eq]; omega)
  rwa [sizeOfClusterBytes_eq, tdiv_natCast, Int.toNat_natCast, Nat.mul_div_cancel _ hC] at h

/-- The chain of the cluster has every cluster that the first `total` bytes need. -/
def ChainCovers (vol : Volume) (c : Int) (total : Nat) : Prop :=
  ∀ j, j * clusterBytes vol < total → 0 ≤ clusterAhead vol j c

/-- A covered chain is read from every state. -/
theorem readChain_settles (h₀ : 0 ≤ c) (h₁ : c < 2 ^ 16) (hC : 0 < clusterBytes vol) {total : Nat}
    (hint : total ≤ 2 ^ 31) (hcovers : ChainCovers vol c total) :
    Settles (fat16ReadInternal (H := H) vol c 0 total)
      (.ok (0, readBytes vol (fun j => clusterAhead vol j c) 0 total)) := by
  have h : Settles (fat16ReadInternalFromStream (H := H) vol .clusterRead c
      ((0 * clusterBytes vol + 0 : Nat) : Int) total)
      (.ok (0, readBytes vol (fun j => clusterAhead vol (0 + j) c) 0 total)) := by
    refine read_settles hC hC (c := fun j => clusterAhead vol j c) (fun j hj => ?_) (by omega)
    rw [Nat.zero_add]
    refine ⟨getCluster_settles h₀ h₁ hC j, ?_, sound_clusterPos vol _⟩
    rcases hj with rfl | hj
    · exact h₀
    · exact hcovers j hj
  simpa [fat16ReadInternal] using h

/-- A read whose status is `0` did not come to the end of the chain. -/
theorem readChain_from (h₀ : 0 ≤ c) (h₁ : c < 2 ^ 16) (hC : 0 < clusterBytes vol) {a total : Nat}
    (hint : a * clusterBytes vol + total ≤ 2 ^ 31) :
    ∃ res out, Settles (fat16ReadInternalFromStream (H := H) vol .clusterRead c
        ((a * clusterBytes vol : Nat) : Int) total) (.ok (res, out)) ∧
      (res = 0 → ∀ j, j * clusterBytes vol < total → 0 ≤ clusterAhead vol (a + j) c) := by
  induction total using Nat.strong_induction_on generalizing a with
  | _ total ih =>
    have hget := getCluster_settles (H := H) h₀ h₁ hC a
    have hmod : a * clusterBytes vol % clusterBytes vol = 0 := Nat.mul_mod_left ..
    rcases Int.lt_or_le (clusterAhead vol a c) 0 with hneg | hc₀
    · exact ⟨_, _, readRound_ended hget hneg, fun h => by omega⟩
    have hsound : Sound (wrap32 (clusterPos vol (clusterAhead vol a c) +
        (a * clusterBytes vol % clusterBytes vol : Nat))) := by
      rw [hmod]; exact sound_clusterPos vol _
    rcases Nat.lt_or_ge (clusterBytes vol) total with h | h
    · have hnext : a * clusterBytes vol + clusterBytes vol = (a + 1) * clusterBytes vol := by ring
      obtain ⟨res, out, hread, hres⟩ :=
        ih (total - clusterBytes vol) (by omega) (a := a + 1) (by omega)
      rw [← hnext] at hread
      refine ⟨_, _, readRound_more hC hget hc₀ hsound h (by omega) hread, fun hr j hj => ?_⟩
      cases j with
      | zero => exact hc₀
      | succ j =>
        have := hres hr j (by rw [Nat.add_mul, Nat.one_mul] at hj; omega)
        rwa [Nat.add_right_comm] at this
    · refine ⟨_, _, readRound_last hC hget hc₀ hsound h, fun _ j hj => ?_⟩
      cases j with
      | zero => exact hc₀
      | succ j => rw [Nat.add_mul, Nat.one_mul] at hj; omega

/-- A read past the end of the chain fails. -/
theorem readChain_ended (h₀ : 0 ≤ c) (h₁ : c < 2 ^ 16) (hC : 0 < clusterBytes vol) {total : Nat}
    (hint : total ≤ 2 ^ 31) (hcovers : ¬ ChainCovers vol c total) :
    ∃ res out, Settles (fat16ReadInternal (H := H) vol c 0 total) (.ok (res, out)) ∧
      res ≠ 0 := by
  obtain ⟨res, out, hread, hres⟩ :=
    readChain_from (H := H) h₀ h₁ hC (show 0 * clusterBytes vol + total ≤ 2 ^ 31 by omega)
  rw [Nat.zero_mul] at hread
  exact ⟨res, out, hread, fun h => hcovers fun j hj => by simpa using hres h j hj⟩

/-- A read of a negative number of bytes writes nothing. -/
theorem readChain_negative (h₀ : 0 ≤ c) (h₁ : c < 2 ^ 16) (hC : 0 < clusterBytes vol) {total : Int}
    (hneg : total < 0) (hint : -2 ^ 31 ≤ total) :
    Settles (fat16ReadInternal (H := H) vol c 0 total) (.ok (0, [])) := by
  have hsound := sound_clusterPos vol c
  have hread : diskstreamerRead vol.disk (wrap32 (clusterPos vol c + (0 : Nat))) total =
      .ok (0, [], wrap32 (wrap32 (clusterPos vol c + (0 : Nat)) + total)) := by
    have hmod : wrap32 (clusterPos vol c + (0 : Nat)) % 512 = 0 := by
      have := clusterPos_emod vol c
      rw [wrap32_emod _ (by decide)]; omega
    have hov : wrap32 (0 + total) = total := by
      rw [Int.zero_add]
      exact wrap32_eq_self hint (by omega)
    rw [diskstreamerRead]
    simp only [hsound.tmod, hmod, diskReadBlock, streamerTotalToRead, peachosSectorSize, hov]
    rw [if_neg (by omega), if_neg (by omega), if_neg (by omega), if_neg (by omega),
      Int.toNat_eq_zero.mpr (show total ≤ 0 by omega)]
    rfl
  have hget := getCluster_settles (H := H) h₀ h₁ hC 0
  rw [Nat.zero_mul] at hget
  rw [fat16ReadInternal, fat16ReadInternalFromStream]
  refine .bind_ok hget ?_
  have hlt := sizeOfClusterBytes_nonneg vol
  rw [if_neg (by simpa [clusterAhead] using h₀),
    dif_neg (by rw [sizeOfClusterBytes_eq]; omega)]
  simp only [clusterAhead, startingPos_eq, if_neg (show ¬ total > sizeOfClusterBytes vol by omega)]
  refine settles_seek_read rfl hread ?_
  simp only [ne_eq, not_true_eq_false, if_false, Int.sub_self, gt_iff_lt, lt_irrefl, dite_false]
  exact .pure _

end

/-! ### Directories on the disk -/

/-- A directory as it lies on the disk: the position of its first slot and its slots, in order. -/
structure StoredDirectory where
  start : Int
  slots : Nat → Option (List U8)

/-- The root directory: `root_dir_entries` slots behind the FATs. -/
def storedRoot (disk : Disk) (header : FatHeader) : StoredDirectory where
  start := wrap32 (rootDirSectorPos header * 512)
  slots i :=
    if i < header.rootDirEntries.toNat then
      some (bytesAt disk (wrap32 (rootDirSectorPos header * 512) + sizeofItem * i) sizeofItem)
    else none

/-- A subdirectory: the slots along its chain of clusters. -/
def storedSubdirectory (vol : Volume) (item : FatDirectoryItem) : StoredDirectory where
  start := wrap32 (clusterPos vol (firstCluster item))
  slots i :=
    let cluster := clusterAhead vol (sizeofItem * i / clusterBytes vol) (firstCluster item)
    if 0 < clusterBytes vol ∧ 0 ≤ cluster then
      some (bytesAt vol.disk (clusterPos vol cluster + (sizeofItem * i % clusterBytes vol : Nat))
        sizeofItem)
    else none

/-- `directory` has been loaded with `T` slots of `stored`. -/
structure Holds (directory : FatDirectory) (stored : StoredDirectory) (T : Nat) : Prop where
  total : directory.total = T
  slot : ∀ i < T, ∀ bytes, stored.slots i = some bytes → directory.slot i = .ok (.ofBytes bytes)
  missing : ∀ i < T, stored.slots i = none → directory.slot i = .error .outOfBounds

/-- A slot inside the array is its 32 bytes. -/
theorem slot_of_live {directory : FatDirectory} {addr : U32} {bytes : List U8}
    (h : directory.item = .live addr bytes) (i : Nat) :
    directory.slot i = if sizeofItem * (i + 1) ≤ bytes.length then
      .ok (.ofBytes ((bytes.drop (sizeofItem * i)).take sizeofItem)) else .error .outOfBounds := by
  rw [FatDirectory.slot, h]; rfl

/-! ### The root directory -/

section
variable {H : Type} {alloc : Allocator H}

/-- An allocation that succeeds. -/
theorem kzalloc_succeeds (hsucc : alloc.Succeeds) (size : U32) (s : KState H) :
    ∃ addr s', kzalloc alloc size s = .ok (addr, s') ∧ addr ≠ 0 :=
  ⟨_, _, rfl, hsucc size s.heap⟩

/-- The root directory once it is loaded: the array at `addr`, and `T` slots that were counted. -/
def loadedRoot (disk : Disk) (header : FatHeader) (addr : U32) (T : Nat) : FatDirectory where
  item := .live addr (bytesAt disk (wrap32 (rootDirSectorPos header * 512))
    (sizeofItem * header.rootDirEntries.toNat))
  total := T
  sectorPos := rootDirSectorPos header
  endingSectorPos := rootDirSectorPos header + rootDirTotalSectors header

/-- Once the slots are counted, loading the root fails only for want of a block. -/
theorem getRootDirectory_read {disk : Disk} {header : FatHeader} {T : Nat} {addr : U32}
    {s s₁ s₂ : KState H}
    (hs₁ : fat16GetTotalItemsForDirectory disk (BitVec.ofInt 32 (rootDirSectorPos header)) s =
      .ok ((T : Int), s₁))
    (hs₂ : kzalloc alloc (BitVec.ofInt 32 (rootDirSize header)) s₁ = .ok (addr, s₂)) :
    ∃ pos, fat16GetRootDirectory alloc disk header s =
      .ok (if addr = 0 then (-enomem, none) else (0, some (loadedRoot disk header addr T)),
        { s₂ with pos }) := by
  rw [fat16GetRootDirectory, Exec.bind_ok hs₁, Exec.bind_ok hs₂]
  by_cases haddr : addr = 0
  · rw [if_pos haddr, if_pos haddr]
    exact ⟨s₂.pos, rfl⟩
  have hsize : rootDirSize header = ((sizeofItem * header.rootDirEntries.toNat : Nat) : Int) := by
    rw [rootDirSize]; push_cast; ring
  have hlt := header.rootDirEntries.isLt
  have hread := diskstreamerRead_spec disk
    (.inr (show wrap32 (rootDirSectorPos header * 512) % 512 = 0 by
      rw [wrap32_emod _ (by decide)]; omega)) (le_wrap32 _) (wrap32_lt _)
    (show 0 ≤ rootDirSize header by rw [hsize]; omega)
    (by rw [hsize]; simp only [sizeofItem]; omega)
  rw [hsize, Int.toNat_natCast, ← hsize] at hread
  rw [if_neg haddr, if_neg haddr]
  exact seek_read_pure (by rfl) hread (by rfl)

/-- The loaded root holds what is stored. -/
theorem loadedRoot_holds (disk : Disk) (header : FatHeader) (addr : U32) (T : Nat) :
    Holds (loadedRoot disk header addr T) (storedRoot disk header) T := by
  refine ⟨rfl, fun i _ bytes hbytes => ?_, fun i _ hnone => ?_⟩
  · simp only [storedRoot] at hbytes
    split at hbytes
    · cases hbytes
      rw [slot_of_live rfl, bytesAt_length, if_pos (by simp only [sizeofItem]; omega),
        bytesAt_slice _ _ (by simp only [sizeofItem]; omega)]
      push_cast
      rfl
    · cases hbytes
  · simp only [storedRoot] at hnone
    split at hnone
    · cases hnone
    · rw [slot_of_live rfl, bytesAt_length, if_neg (by simp only [sizeofItem]; omega)]

/-- A counted root directory is loaded. -/
theorem getRootDirectory_of_count (hsucc : alloc.Succeeds) (disk : Disk) (header : FatHeader)
    {n T : Nat} (hcount : SlotCount disk (storedRoot disk header).start n T) (s : KState H) :
    ∃ directory s', fat16GetRootDirectory alloc disk header s = .ok ((0, some directory), s') ∧
      Holds directory (storedRoot disk header) T ∧
      directory.endingSectorPos = rootDirSectorPos header + rootDirTotalSectors header := by
  simp only [storedRoot] at hcount
  obtain ⟨s₁, hs₁⟩ :=
    (getTotalItems_eq_ok disk (rootDirSectorPos header) T s).mpr ⟨n, T, hcount, rfl⟩
  obtain ⟨addr, s₂, hs₂, haddr⟩ :=
    kzalloc_succeeds hsucc (BitVec.ofInt 32 (rootDirSize header)) s₁
  obtain ⟨pos, hload⟩ := getRootDirectory_read hs₁ hs₂
  rw [if_neg haddr] at hload
  exact ⟨_, _, hload, loadedRoot_holds disk header addr T, rfl⟩

/-- The root directory is loaded only when the counting pass comes to an end. -/
theorem getRootDirectory_count {disk : Disk} {header : FatHeader} {s s' : KState H}
    {r : Int × Option FatDirectory}
    (h : fat16GetRootDirectory alloc disk header s = .ok (r, s')) :
    ∃ n T : Nat, SlotCount disk (storedRoot disk header).start n T := by
  rw [fat16GetRootDirectory] at h
  obtain ⟨total, s₁, hs₁, -⟩ := Exec.bind_eq_ok.mp h
  obtain ⟨n, T, hcount, -⟩ := (getTotalItems_eq_ok ..).mp ⟨s₁, hs₁⟩
  exact ⟨n, T, by simpa only [storedRoot] using hcount⟩

end

end KernelNES.Fs
