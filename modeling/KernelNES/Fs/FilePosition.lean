import KernelNES.Fs.Interference

/-!
# Fs — FilePosition

The position of an open file along `fread` and `fseek` calls.  A read moves it as far as it was
asked to, whether or not the file ends before: it fails only where the chain of clusters ends.  A
relative seek compares the offset with the size of the file, not the position it leads to.  What a
call does to the position is settled by its arguments and the chain (`fread_outcome`,
`fseek_outcome`), and so is whether the position stays within the file (`position_within_file`).
-/

namespace KernelNES.Fs
open KernelNES.Lib KernelNES.Memory

/-! ### Where a read fails -/

section
variable {H : Type} {vol : Volume} {stream : StreamId} {cluster : Int}

/-- One of the pieces in which `total` bytes are read from `offset` on lies behind the end of the
chain of clusters. -/
def ChainEndsIn (vol : Volume) (cluster offset total : Int) : Prop :=
  ∃ k : Nat, (k = 0 ∨ k * sizeOfClusterBytes vol < total) ∧
    clusterAhead vol ((wrap32 (offset + k * sizeOfClusterBytes vol)).tdiv
      (sizeOfClusterBytes vol)).toNat cluster < 0

/-- The first piece, or one of those behind it. -/
theorem chainEndsIn_iff {offset total : Int} (hoffset : wrap32 offset = offset) :
    ChainEndsIn vol cluster offset total ↔
      clusterAhead vol (offset.tdiv (sizeOfClusterBytes vol)).toNat cluster < 0 ∨
        (sizeOfClusterBytes vol < total ∧ ChainEndsIn vol cluster
          (wrap32 (offset + sizeOfClusterBytes vol)) (total - sizeOfClusterBytes vol)) := by
  have hpos := sizeOfClusterBytes_nonneg vol
  have hmul : ∀ k : Nat, ((k + 1 : Nat) : Int) * sizeOfClusterBytes vol =
      k * sizeOfClusterBytes vol + sizeOfClusterBytes vol := fun k => by
    rw [Nat.cast_succ, Int.add_mul, Int.one_mul]
  have hnext : ∀ k : Nat,
      wrap32 (wrap32 (offset + sizeOfClusterBytes vol) + k * sizeOfClusterBytes vol) =
        wrap32 (offset + (k + 1 : Nat) * sizeOfClusterBytes vol) := fun k => by
    rw [wrap32_wrap32_add, hmul]
    congr 1
    omega
  constructor
  · rintro ⟨k, hk, hend⟩
    cases k with
    | zero =>
      rw [Nat.cast_zero, Int.zero_mul, Int.add_zero, hoffset] at hend
      exact .inl hend
    | succ k =>
      have hlt := hk.resolve_left (Nat.succ_ne_zero k)
      have hk0 : 0 ≤ (k : Int) * sizeOfClusterBytes vol :=
        Int.mul_nonneg (Int.natCast_nonneg k) hpos
      rw [hmul] at hlt
      exact .inr ⟨by omega, k, .inr (by omega), by rwa [hnext]⟩
  · rintro (hend | ⟨hlt, k, hk, hend⟩)
    · refine ⟨0, .inl rfl, ?_⟩
      rwa [Nat.cast_zero, Int.zero_mul, Int.add_zero, hoffset]
    · refine ⟨k + 1, .inr ?_, by rwa [← hnext]⟩
      rw [hmul]
      rcases hk with rfl | hk
      · rwa [Nat.cast_zero, Int.zero_mul, Int.zero_add]
      · omega

/-- The streamer answers 0, or faults. -/
theorem diskstreamerRead_status {disk : Disk} {pos total : Int} {res : Int} {out : List U8}
    {pos' : Int} (h : diskstreamerRead disk pos total = .ok (res, out, pos')) : res = 0 := by
  induction hn : (wrap32 total).toNat using Nat.strong_induction_on
    generalizing pos total res out pos' with
  | _ n ih =>
    rw [diskstreamerRead] at h
    simp only [diskReadBlock, lt_self_iff_false, if_false] at h
    split at h
    · cases h
    · rename_i hbuf
      split at h
      · rename_i hov
        have hdec := streamerRound_decreases hbuf hov
        rw [wrap32_wrap32] at hdec
        cases hrest : diskstreamerRead disk (wrap32 (pos +
            streamerTotalToRead (pos.tmod peachosSectorSize) total))
            (wrap32 (total - streamerTotalToRead (pos.tmod peachosSectorSize) total)) with
        | error e => rw [hrest] at h; cases h
        | ok r =>
          obtain ⟨res₁, out₁, pos₁⟩ := r
          rw [hrest] at h
          cases h
          exact ih _ (by rw [← hn, wrap32_wrap32]; exact hdec) hrest rfl
      · cases h
        rfl

/-- So does a read through a stream. -/
theorem streamRead_status {disk : Disk} {total res : Int} {out : List U8} {s s' : KState H}
    (h : streamRead disk stream total s = .ok ((res, out), s')) : res = 0 := by
  rw [streamRead] at h
  split at h
  · cases h
  · rename_i hread
    cases h
    exact diskstreamerRead_status hread

/-- A read that returns has failed exactly when the chain ends in it. -/
theorem readInternal_status (h₀ : 0 ≤ cluster) (h₁ : cluster < 2 ^ 16) {offset total res : Int}
    {out : List U8} {s s' : KState H} (hoffset : wrap32 offset = offset)
    (h : fat16ReadInternalFromStream vol stream cluster offset total s = .ok ((res, out), s')) :
    (res < 0 ∧ ChainEndsIn vol cluster offset total) ∨
      (res = 0 ∧ ¬ ChainEndsIn vol cluster offset total) := by
  by_cases hC : sizeOfClusterBytes vol = 0
  · rw [fat16ReadInternalFromStream, fat16GetClusterForOffset, if_pos hC] at h
    obtain ⟨c, s₁, hfault, -⟩ := Exec.bind_eq_ok.mp h
    cases hfault
  induction hn : total.toNat using Nat.strong_induction_on
    generalizing offset total res out s s' with
  | _ n ih =>
    rw [chainEndsIn_iff hoffset]
    rw [fat16ReadInternalFromStream] at h
    obtain ⟨c, s₁, hcluster, h⟩ := Exec.bind_eq_ok.mp h
    obtain ⟨s₂, hc⟩ := (fat16GetClusterForOffset_settles (H := H) vol h₀ h₁ offset hC).ok s
    cases hcluster.symm.trans hc
    split at h
    · rename_i hneg
      cases h
      exact .inl ⟨hneg, .inl hneg⟩
    · rename_i hnonneg
      obtain ⟨res₁, s₃, hseek, h⟩ := Exec.bind_eq_ok.mp h
      cases hseek
      rw [if_neg (not_not.mpr rfl)] at h
      obtain ⟨⟨res₂, out₂⟩, s₄, hread, h⟩ := Exec.bind_eq_ok.mp h
      obtain rfl := streamRead_status hread
      dsimp only at h
      rw [if_neg (not_not.mpr rfl)] at h
      by_cases hlt : sizeOfClusterBytes vol < total
      · have hmore : total - sizeOfClusterBytes vol > 0 := by omega
        rw [if_pos hlt, dif_pos hmore] at h
        obtain ⟨⟨res₃, out₃⟩, s₅, hrest, h⟩ := Exec.bind_eq_ok.mp h
        cases h
        have hdec : (total - sizeOfClusterBytes vol).toNat < n := by
          have hpos := sizeOfClusterBytes_nonneg vol
          omega
        have hstatus := ih _ hdec (wrap32_wrap32 _) hrest rfl
        simpa [hnonneg, hlt] using hstatus
      · rw [if_neg hlt, dif_neg (by omega)] at h
        cases h
        exact .inr ⟨rfl, fun hends => hends.elim hnonneg fun hmore => hlt hmore.1⟩

/-- The read ends early when the chain ends in one of its elements. -/
def ReadEndsEarly (vol : Volume) (item : FatDirectoryItem) (pos size nmemb : U32) : Prop :=
  ∃ i < nmemb.toNat, ChainEndsIn vol (fat16GetFirstCluster item).toInt
    (wrap32 (pos.toInt + (i * size.toNat : Nat))) size.toInt

/-- The loop stops where the chain ends, or comes to the end of the elements. -/
theorem readLoop_status {item : FatDirectoryItem} {r size : U32} (n : Nat) {offset : Int}
    (hoffset : wrap32 offset = offset) {res offset' : Int} {out : List U8} {s s' : KState H}
    (h : fat16ReadLoop vol (.file (.live r item)) size n offset s = .ok ((res, offset', out), s')) :
    (res < 0 ∧ ∃ i < n, ChainEndsIn vol (fat16GetFirstCluster item).toInt
      (wrap32 (offset + (i * size.toNat : Nat))) size.toInt) ∨
    (res = 0 ∧ offset' = wrap32 (offset + (n * size.toNat : Nat)) ∧
      ¬ ∃ i < n, ChainEndsIn vol (fat16GetFirstCluster item).toInt
        (wrap32 (offset + (i * size.toNat : Nat))) size.toInt) := by
  induction n generalizing offset res offset' out s s' with
  | zero =>
    cases h
    refine .inr ⟨rfl, by simpa using hoffset.symm, ?_⟩
    rintro ⟨i, hi, -⟩
    exact absurd hi (Nat.not_lt_zero i)
  | succ n ih =>
    have hnext : ∀ i : Nat, wrap32 (wrap32 (offset + size.toNat) + (i * size.toNat : Nat)) =
        wrap32 (offset + ((i + 1) * size.toNat : Nat)) := fun i => by
      rw [wrap32_wrap32_add, Nat.succ_mul]
      congr 1
      omega
    have hfirst : wrap32 (offset + (0 * size.toNat : Nat)) = offset := by simpa using hoffset
    obtain ⟨h₀, h₁⟩ := firstCluster_range item
    rw [fat16ReadLoop, FatItem.itemMember, Ref.load, Exec.lift_ok_bind] at h
    obtain ⟨⟨res₁, out₁⟩, s₁, hread, h⟩ := Exec.bind_eq_ok.mp h
    rcases readInternal_status h₀ h₁ hoffset hread with ⟨hneg, hends⟩ | ⟨rfl, hends⟩
    · dsimp only at h
      rw [if_pos hneg] at h
      cases h
      exact .inl ⟨hneg, 0, Nat.succ_pos n, by rwa [hfirst]⟩
    · dsimp only at h
      rw [if_neg (by omega)] at h
      obtain ⟨⟨res₂, offset₂, out₂⟩, s₂, hrest, h⟩ := Exec.bind_eq_ok.mp h
      cases h
      rcases ih (wrap32_wrap32 _) hrest with ⟨hneg, i, hi, hend⟩ | ⟨rfl, rfl, hnone⟩
      · exact .inl ⟨hneg, i + 1, Nat.succ_lt_succ hi, by rwa [← hnext]⟩
      · refine .inr ⟨rfl, hnext n, ?_⟩
        rintro ⟨i, hi, hend⟩
        cases i with
        | zero => exact hends (hfirst ▸ hend)
        | succ i => exact hnone ⟨i, Nat.lt_of_succ_lt_succ hi, by rwa [hnext]⟩

end

/-! ### What a call does to the position -/

/-- The position after a read, as an `int` and as the `uint32_t` it is stored to. -/
theorem position_after (pos size nmemb : U32) :
    BitVec.ofInt 32 (wrap32 (pos.toInt + (nmemb.toNat * size.toNat : Nat))) =
      pos + size * nmemb := by
  rw [ofInt_wrap32, BitVec.ofInt_add, BitVec.ofInt_toInt, BitVec.ofInt_natCast]
  congr 1
  refine BitVec.eq_of_toNat_eq ?_
  rw [BitVec.toNat_ofNat, BitVec.toNat_mul, Nat.mul_comm]

section
variable {H : Type} {alloc : Allocator H} {vol : Volume} {fd : Int} {item : FatDirectoryItem}
  {pos : U32}

/-- What `fat16_read` answers, and where it leaves the position. -/
theorem fat16Read_outcome {p p' q r size nmemb : U32} {s s' : FatState H}
    (hdesc : s.descriptors p = .live p' { item := .live q (.file (.live r item)), pos })
    {res : Int} {bytes : List U8} (h : fat16Read vol p size nmemb s = .ok ((res, bytes), s')) :
    (ReadEndsEarly vol item pos size nmemb ∧ res < 0 ∧ s'.descriptors p = s.descriptors p) ∨
    (¬ ReadEndsEarly vol item pos size nmemb ∧ res = nmemb.toInt ∧ s'.descriptors p =
      .live p { item := .live q (.file (.live r item)), pos := pos + size * nmemb }) := by
  have hload : loadDescriptor p s = .ok ({ item := .live q (.file (.live r item)), pos }, s) :=
    loadDescriptor_eq_ok.mpr ⟨p', hdesc, rfl⟩
  rw [fat16Read, Exec.bind_ok hload, Ref.load, Exec.lift_ok_bind] at h
  obtain ⟨⟨res₁, offset, out⟩, s₁, hloop, h⟩ := Exec.bind_eq_ok.mp h
  obtain ⟨driver, hrun, rfl⟩ := onDriver_eq_ok.mp hloop
  have hpos : wrap32 pos.toInt = pos.toInt :=
    wrap32_eq_self (by have := BitVec.le_toInt pos; omega) (by have := pos.toInt_lt; omega)
  rcases readLoop_status nmemb.toNat hpos hrun with ⟨hneg, hends⟩ | ⟨rfl, rfl, hends⟩
  · dsimp only at h
    rw [if_pos hneg] at h
    cases h
    exact .inl ⟨hends, hneg, rfl⟩
  · dsimp only at h
    rw [if_neg (by omega), position_after] at h
    cases h
    exact .inr ⟨hends, rfl, Function.update_self ..⟩

/-- A read of an open file fails where its chain ends, or moves the position by all it was asked
for. -/
theorem fread_outcome {size nmemb : U32} {s s' : FileState (FatState H)}
    (hat : OnVolume alloc vol s fd item pos) (hsize : size ≠ 0) (hnmemb : nmemb ≠ 0) {res : Int}
    {bytes : List U8} (h : fread size nmemb fd s = .ok ((res, bytes), s')) :
    (ReadEndsEarly vol item pos size nmemb ∧ res < 0 ∧ OnVolume alloc vol s' fd item pos) ∨
    (¬ ReadEndsEarly vol item pos size nmemb ∧ res = nmemb.toInt ∧
      OnVolume alloc vol s' fd item (pos + size * nmemb)) := by
  obtain ⟨ptr, desc, p, q, r, hget, hdesc⟩ := hat.file
  have hfd := (entry_of_live hget).1
  rw [fread_eq, if_neg (by simp only [hsize, hnmemb, false_or]; omega),
    withDescriptor_live hget (hat.filesystem _ _ hget)] at h
  obtain ⟨kernel, hread, rfl⟩ := onKernel_eq_ok.mp h
  rcases fat16Read_outcome hdesc hread with ⟨hends, hneg, hsame⟩ | ⟨hends, hres, hmoved⟩
  · exact .inl ⟨hends, hneg, ⟨ptr, desc, p, q, r, hget, hsame.trans hdesc⟩, hat.filesystem⟩
  · exact .inr ⟨hends, hres, ⟨ptr, desc, _, q, r, hget, hmoved⟩, hat.filesystem⟩

/-- Nothing to read is refused. -/
theorem fread_refused {size nmemb : U32} {s s' : FileState (FatState H)}
    (hargs : size = 0 ∨ nmemb = 0) {res : Int} {bytes : List U8}
    (h : fread size nmemb fd s = .ok ((res, bytes), s')) : res < 0 ∧ s' = s := by
  rw [fread_eq, if_pos (by tauto)] at h
  cases h
  exact ⟨by decide, rfl⟩

/-- A seek moves the position as `seekPosition` says. -/
theorem fseek_outcome {offset : Int} {whence : FileSeekMode} {s s' : FileState (FatState H)}
    (hat : OnVolume alloc vol s fd item pos) {res : Int}
    (h : fseek fd offset whence s = .ok (res, s')) :
    res = (seekPosition item.filesize pos (BitVec.ofInt 32 offset) whence).1 ∧
      OnVolume alloc vol s' fd item
        (seekPosition item.filesize pos (BitVec.ofInt 32 offset) whence).2 := by
  obtain ⟨s₁, hseek, hat'⟩ := hat.fseeks offset whence
  cases hseek.symm.trans h
  exact ⟨rfl, hat'⟩

/-! ### Within the file -/

/-- What a call that moves the position from `pos` to `pos'` does when it stays within the file. -/
def StaysWithin (item : FatDirectoryItem) (pos pos' : U32) : IOEvent → Prop
  | .fread _ size nmemb res _ =>
    (0 ≤ res → pos'.toNat ≤ item.filesize.toNat ∧
      pos.toNat + size.toNat * nmemb.toNat ≤ item.filesize.toNat) ∧ (res < 0 → pos' = pos)
  | .fseek _ _ _ res => (0 ≤ res → pos'.toNat < item.filesize.toNat) ∧ (res < 0 → pos' = pos)

/-- A read is refused, fails where the chain ends, or lies in the file; of `2³¹` elements or more it
comes back to where it started.  A relative seek that is not refused leads into the file. -/
def InFile (vol : Volume) (item : FatDirectoryItem) (pos : U32) : IOEvent → Prop
  | .fread _ size nmemb _ _ =>
    size = 0 ∨ nmemb = 0 ∨ ReadEndsEarly vol item pos size nmemb ∨
      (nmemb.toNat < 2 ^ 31 ∧ pos.toNat + size.toNat * nmemb.toNat ≤ item.filesize.toNat) ∨
      (2 ^ 31 ≤ nmemb.toNat ∧ size * nmemb = 0)
  | .fseek _ offset whence _ => whence = .seekCur → BitVec.ofInt 32 offset < item.filesize →
      pos + BitVec.ofInt 32 offset < item.filesize

/-- A read stays within the file when its bytes are in it. -/
theorem fread_staysWithin_iff {size nmemb : U32} {s s' : FileState (FatState H)}
    (hat : OnVolume alloc vol s fd item pos) {res : Int} {bytes : List U8}
    (h : fread size nmemb fd s = .ok ((res, bytes), s')) :
    ∃ pos', OnVolume alloc vol s' fd item pos' ∧
      (StaysWithin item pos pos' (.fread fd size nmemb res bytes) ↔
        InFile vol item pos (.fread fd size nmemb res bytes)) := by
  by_cases hargs : size = 0 ∨ nmemb = 0
  · obtain ⟨hneg, rfl⟩ := fread_refused hargs h
    refine ⟨pos, hat, iff_of_true ⟨fun h0 => absurd hneg (by omega), fun _ => rfl⟩ ?_⟩
    rcases hargs with h0 | h0
    · exact .inl h0
    · exact .inr (.inl h0)
  · obtain ⟨hsize, hnmemb⟩ := not_or.mp hargs
    rcases fread_outcome hat hsize hnmemb h with ⟨hends, hneg, hat'⟩ | ⟨hends, rfl, hat'⟩
    · exact ⟨pos, hat', iff_of_true ⟨fun h0 => absurd hneg (by omega), fun _ => rfl⟩
        (.inr (.inr (.inl hends)))⟩
    · refine ⟨_, hat', ?_⟩
      have hsign : 0 ≤ nmemb.toInt ↔ nmemb.toNat < 2 ^ 31 := by
        rw [BitVec.toInt_eq_toNat_cond]
        have := nmemb.isLt
        split <;> omega
      have hback : pos + size * nmemb = pos ↔ size * nmemb = 0 := by
        constructor <;> intro he <;> bv_omega
      have hmoved : pos.toNat + size.toNat * nmemb.toNat ≤ item.filesize.toNat →
          (pos + size * nmemb).toNat ≤ item.filesize.toNat := by
        intro hle
        have := item.filesize.isLt
        rw [BitVec.toNat_add, BitVec.toNat_mul, Nat.add_mod_mod, Nat.mod_eq_of_lt (by omega)]
        exact hle
      simp only [StaysWithin, InFile, hsize, hnmemb, hends, false_or, hsign, hback]
      by_cases hlt : nmemb.toNat < 2 ^ 31
      · have hnonneg : ¬ nmemb.toInt < 0 := by have := hsign.mpr hlt; omega
        have hge : ¬ 2 ^ 31 ≤ nmemb.toNat := by omega
        simp only [hlt, hnonneg, hge, true_and, false_and, or_false, forall_true_left,
          false_imp_iff, and_true]
        exact ⟨fun h => h.2, fun h => ⟨hmoved h, h⟩⟩
      · have hneg : nmemb.toInt < 0 := by have := hsign.not.mpr hlt; omega
        have hge : 2 ^ 31 ≤ nmemb.toNat := by omega
        simp only [hlt, hneg, hge, true_and, false_and, false_or, forall_true_left, false_imp_iff]

/-- A seek stays within the file when it leads there. -/
theorem fseek_staysWithin_iff {offset : Int} {whence : FileSeekMode} {s s' : FileState (FatState H)}
    (hat : OnVolume alloc vol s fd item pos) {res : Int}
    (h : fseek fd offset whence s = .ok (res, s')) :
    ∃ pos', OnVolume alloc vol s' fd item pos' ∧
      (StaysWithin item pos pos' (.fseek fd offset whence res) ↔
        InFile vol item pos (.fseek fd offset whence res)) := by
  obtain ⟨rfl, hat'⟩ := fseek_outcome hat h
  refine ⟨_, hat', ?_⟩
  simp only [StaysWithin, InFile, seekPosition]
  by_cases hge : BitVec.ofInt 32 offset ≥ item.filesize
  · have hnlt : ¬ BitVec.ofInt 32 offset < item.filesize := by bv_omega
    rw [if_pos hge]
    simp [hnlt, eio]
  · have hlt : BitVec.ofInt 32 offset < item.filesize := by bv_omega
    rw [if_neg hge]
    cases whence <;> simp [hlt, eunimp, einvarg, BitVec.lt_def]
    exact hlt

/-! ### Runs -/

/-- A call on one file descriptor. -/
def CallOn (fd : Int) (s : FileState (FatState H)) (e : IOEvent) (s' : FileState (FatState H)) :
    Prop := e.fd = fd ∧ IOStep s e s'

/-- A call after which the position is within the file as it should be. -/
def CallWithin (fd : Int) (item : FatDirectoryItem) (s : FileState (FatState H)) (e : IOEvent)
    (s' : FileState (FatState H)) : Prop :=
  CallOn fd s e s' ∧ ∀ pos pos', FileAt s fd item pos → FileAt s' fd item pos' →
    StaysWithin item pos pos' e

/-- The call is in the file from the position the file is at. -/
def CallInFile (vol : Volume) (fd : Int) (item : FatDirectoryItem) (s : FileState (FatState H))
    (e : IOEvent) : Prop := ∀ pos, FileAt s fd item pos → InFile vol item pos e

/-- A file is at one position. -/
theorem FileAt.unique {s : FileState (FatState H)} {pos pos' : U32} (h : FileAt s fd item pos)
    (h' : FileAt s fd item pos') : pos = pos' := by
  obtain ⟨ptr, desc, p, q, r, hget, hdesc⟩ := h
  obtain ⟨ptr', desc', p', q', r', hget', hdesc'⟩ := h'
  cases hget.symm.trans hget'
  cases hdesc.symm.trans hdesc'
  rfl

/-- A call leaves the file open, and stays within it exactly when it is in it. -/
theorem CallOn.staysWithin_iff {s s' : FileState (FatState H)} {e : IOEvent}
    (hat : OnVolume alloc vol s fd item pos) (h : CallOn fd s e s') :
    ∃ pos', OnVolume alloc vol s' fd item pos' ∧
      (StaysWithin item pos pos' e ↔ InFile vol item pos e) := by
  obtain ⟨rfl, h⟩ := h
  cases h with
  | fread h => exact fread_staysWithin_iff hat h
  | fseek h => exact fseek_staysWithin_iff hat h

/-- The calls of a run stay within the file exactly when each is in the file, and then the position
is in the file at its end. -/
theorem position_within_file {s s' : FileState (FatState H)} {es : List IOEvent}
    (hat : OnVolume alloc vol s fd item pos) (hpos : pos.toNat ≤ item.filesize.toNat) :
    (Run (CallWithin fd item) s es s' ↔
      Run (Meeting (CallInFile vol fd item) (CallOn fd)) s es s') ∧
    (Run (Meeting (CallInFile vol fd item) (CallOn fd)) s es s' →
      ∀ pos', FileAt s' fd item pos' → pos'.toNat ≤ item.filesize.toNat) := by
  -- the file stays open, whatever is called
  have hopen : ∀ (s : FileState (FatState H)) (e : IOEvent) (s' : FileState (FatState H)),
      (∃ pos, OnVolume alloc vol s fd item pos) → CallOn fd s e s' →
      ∃ pos', OnVolume alloc vol s' fd item pos' := by
    rintro s e s' ⟨pos, hat⟩ h
    obtain ⟨pos', hat', -⟩ := h.staysWithin_iff hat
    exact ⟨pos', hat'⟩
  have hstep : ∀ (s : FileState (FatState H)) (e : IOEvent) (s' : FileState (FatState H)),
      (∃ pos, OnVolume alloc vol s fd item pos) →
      (CallWithin fd item s e s' ↔ Meeting (CallInFile vol fd item) (CallOn fd) s e s') := by
    rintro s e s' ⟨pos, hat⟩
    constructor
    · rintro ⟨h, hwithin⟩
      obtain ⟨pos', hat', hiff⟩ := h.staysWithin_iff hat
      refine ⟨fun pos₁ hpos₁ => ?_, h⟩
      rw [← hat.file.unique hpos₁]
      exact hiff.mp (hwithin pos pos' hat.file hat'.file)
    · rintro ⟨hin, h⟩
      obtain ⟨pos', hat', hiff⟩ := h.staysWithin_iff hat
      refine ⟨h, fun pos₁ pos₂ hpos₁ hpos₂ => ?_⟩
      rw [← hat.file.unique hpos₁, ← hat'.file.unique hpos₂]
      exact hiff.mpr (hin pos hat.file)
  refine ⟨Run.congr_of_invariant ⟨pos, hat⟩ hstep fun s e s' hP h => hopen s e s' hP h.2,
    fun hrun pos' hpos' => ?_⟩
  -- every call stays within the file, so the position does
  have hbound := hrun.invariant
    (P := fun s => ∃ pos, OnVolume alloc vol s fd item pos ∧ pos.toNat ≤ item.filesize.toNat)
    ⟨pos, hat, hpos⟩ fun s e s' hP h => by
      obtain ⟨pos, hat, hle⟩ := hP
      obtain ⟨pos', hat', hiff⟩ := h.2.staysWithin_iff hat
      refine ⟨pos', hat', ?_⟩
      have hwithin := hiff.mpr (h.1 pos hat.file)
      cases e with
      | fread _ _ _ res _ =>
        by_cases hres : 0 ≤ res
        · exact (hwithin.1 hres).1
        · rw [hwithin.2 (by omega)]
          exact hle
      | fseek _ _ _ res =>
        by_cases hres : 0 ≤ res
        · exact (hwithin.1 hres).le
        · rw [hwithin.2 (by omega)]
          exact hle
  obtain ⟨pos₁, hat', hle⟩ := hbound
  rwa [← hat'.file.unique hpos']

end

/-! ### Past the end -/

/-- The file `A` of `romVolume`, of `0x8010` bytes, opened. -/
theorem romFile_open :
    OnVolume .ample romVolume (bootFiles.withA 0 0x01000000) 1 (.ofBytes romSlot) 0 :=
  ⟨⟨_, _, _, _, _, rfl, rfl⟩, fun _ _ h => by cases h; rfl⟩

/-- A read of the header of the file stays within it. -/
theorem position_within_romFile :
    ∃ s', Run (CallWithin 1 (.ofBytes romSlot)) (bootFiles.withA 0 0x01000000)
        [.fread 1 16 1 1 (bytesAt romVolume.disk 0x600 16)] s' ∧
      ∀ pos', FileAt s' 1 (.ofBytes romSlot) pos' → pos'.toNat ≤ 0x8010 := by
  obtain ⟨s', hread, hat'⟩ :=
    romFile_open.reads 0 16 (by decide) (by decide) (by decide) (by decide)
  have hrun : Run (Meeting (CallInFile romVolume 1 (.ofBytes romSlot)) (CallOn 1))
      (bootFiles.withA 0 0x01000000) [.fread 1 16 1 1 (bytesAt romVolume.disk 0x600 16)] s' := by
    refine .one ⟨fun pos hpos => ?_, rfl, .fread hread⟩
    obtain rfl := romFile_open.file.unique hpos
    exact .inr (.inr (.inr (.inl (by decide))))
  have hstart : (0 : U32).toNat ≤ (FatDirectoryItem.ofBytes romSlot).filesize.toNat := by decide
  exact ⟨s', (position_within_file romFile_open hstart).1.mpr hrun,
    (position_within_file romFile_open hstart).2 hrun⟩

/-- **Past the end.**  From the start of a file of `0x8010` bytes a read of `0x9000` bytes succeeds,
and so does a relative seek by `0x8000` from position `0x8000`. -/
theorem romFile_past_end :
    ∃ s s₁ s₂ s₃,
      fopen (Allocator.onFat .ample) (fat16Disk .ample romVolume) pathA modeR bootFiles =
        .ok (1, s) ∧ FileAt s 1 (.ofBytes romSlot) 0 ∧
      (FatDirectoryItem.ofBytes romSlot).filesize = 0x8010 ∧
      CallOn 1 s (.fread 1 0x9000 1 1 (bytesAt romVolume.disk 0x600 0x9000)) s₁ ∧
      FileAt s₁ 1 (.ofBytes romSlot) 0x9000 ∧
      Run (CallOn 1) s [.fseek 1 0x8000 .seekSet 0, .fseek 1 0x8000 .seekCur 0] s₃ ∧
      FileAt s₃ 1 (.ofBytes romSlot) 0x10000 ∧
      ¬ CallWithin 1 (.ofBytes romSlot) s
        (.fread 1 0x9000 1 1 (bytesAt romVolume.disk 0x600 0x9000)) s₁ ∧
      CallOn 1 s (.fseek 1 0x8000 .seekSet 0) s₂ ∧
      ¬ CallWithin 1 (.ofBytes romSlot) s₂ (.fseek 1 0x8000 .seekCur 0) s₃ := by
  obtain ⟨desc, hopen⟩ : ∃ desc, fopenBody (Allocator.onFat .ample) (fat16Disk .ample romVolume)
      pathA modeR bootFiles = .ok ((1, desc), bootFiles.withA 0 0x01000000) :=
    ⟨_, fopenBody_ok (i := 0) (show fopenPrivate _ _ pathA modeR bootFiles.kernel =
      .ok (.ok (fat16Filesystem .ample romVolume, 0x01004000),
        { (bootFiles.withA 0 0x01000000).kernel with driver := ⟨7, fun _ => 0⟩ }) from rfl)
      (by decide) ⟨rfl, nofun⟩ rfl⟩
  have hfopen : fopen (Allocator.onFat .ample) (fat16Disk .ample romVolume) pathA modeR bootFiles =
      .ok (1, bootFiles.withA 0 0x01000000) := by
    rw [fopen, Exec.bind_ok hopen]
    rfl
  obtain ⟨s₁, hread, hat₁⟩ :=
    romFile_open.reads 0 0x9000 (by decide) (by decide) (by decide) (by decide)
  obtain ⟨s₂, hset, hat₂⟩ := romFile_open.seeks 0x8000 (by decide)
  obtain ⟨s₃, hcur, hat₃⟩ := hat₂.fseeks 0x8000 .seekCur
  have hcallRead : CallOn 1 (bootFiles.withA 0 0x01000000)
      (.fread 1 0x9000 1 1 (bytesAt romVolume.disk 0x600 0x9000)) s₁ := ⟨rfl, .fread hread⟩
  have hcallSet : CallOn 1 (bootFiles.withA 0 0x01000000) (.fseek 1 0x8000 .seekSet 0) s₂ :=
    ⟨rfl, .fseek hset⟩
  have hcallCur : CallOn 1 s₂ (.fseek 1 0x8000 .seekCur 0) s₃ := ⟨rfl, .fseek hcur⟩
  refine ⟨_, s₁, s₂, s₃, hfopen, romFile_open.file, by decide, hcallRead, hat₁.file,
    .cons hcallSet (.one hcallCur), hat₃.file, fun h => ?_, hcallSet, fun h => ?_⟩
  · exact absurd ((h.2 _ _ romFile_open.file hat₁.file).1 (by decide)).1 (by decide)
  · exact absurd ((h.2 _ _ hat₂.file hat₃.file).1 (by decide)) (by decide)

end KernelNES.Fs
