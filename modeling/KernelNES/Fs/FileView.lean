import KernelNES.Fs.ClusterRead
import KernelNES.Fs.FilePosition

/-!
# Fs — FileView

What a program sees of a file it has open: a row of bytes and a position in it (`View`).  Along any
calls of `fread`, `fseek` and `fstat` that stay in the file, the driver returns what this view returns
exactly when each element read passes from one cluster of the file to the next where the two lie one
behind the other on the disk, or starts with a cluster (`calls_view`).
-/

namespace KernelNES.Fs
open KernelNES.Lib KernelNES.Memory

/-! ### The view -/

/-- A call on an open file. -/
inductive FileOp where
  | read (size nmemb : U32)
  | seek (offset : Int) (whence : FileSeekMode)
  | stat
  deriving DecidableEq

/-- What a call returns, with the bytes it delivers or what it writes to `stat`. -/
inductive Answer where
  | read (res : Int) (bytes : List U8)
  | seek (res : Int)
  | stat (res : Int) (stat : Option FileStat)
  deriving DecidableEq

/-- The bytes of a file, what `fstat` calls its flags, and a position in it. -/
structure View where
  contents : List U8
  flags : U32
  pos : Nat
  deriving DecidableEq

/-- What a call on the file gives, and the view after it.  A call that leaves the file gives
nothing. -/
def View.step (v : View) : FileOp → Option (Answer × View)
  | .read size nmemb =>
    if size = 0 ∨ nmemb = 0 then some (.read (-einvarg) [], v)
    else if v.pos + nmemb.toNat * size.toNat ≤ v.contents.length then
      some (.read nmemb.toNat ((v.contents.drop v.pos).take (nmemb.toNat * size.toNat)),
        { v with pos := v.pos + nmemb.toNat * size.toNat })
    else none
  | .seek offset whence =>
    if v.contents.length ≤ (BitVec.ofInt 32 offset).toNat then some (.seek (-eio), v)
    else
      match whence with
      | .seekSet => some (.seek 0, { v with pos := (BitVec.ofInt 32 offset).toNat })
      | .seekEnd => some (.seek (-eunimp), v)
      | .seekCur =>
        if v.pos + (BitVec.ofInt 32 offset).toNat ≤ v.contents.length then
          some (.seek 0, { v with pos := v.pos + (BitVec.ofInt 32 offset).toNat })
        else none
      | .other => some (.seek (-einvarg), v)
  | .stat => some (.stat 0 (some ⟨v.flags, BitVec.ofNat 32 v.contents.length⟩), v)

/-- What the calls give, one after the other. -/
def View.answers : View → List FileOp → Option (List Answer × View)
  | v, [] => some ([], v)
  | v, op :: ops => do
    let (answer, v) ← v.step op
    let (answers, v) ← v.answers ops
    some (answer :: answers, v)

/-- The answers, one call at a time. -/
theorem View.answers_cons {v v' : View} {op : FileOp} {ops : List FileOp}
    {answers : List Answer} (h : v.answers (op :: ops) = some (answers, v')) :
    ∃ answer v₁ rest, v.step op = some (answer, v₁) ∧ v₁.answers ops = some (rest, v') ∧
      answers = answer :: rest := by
  simp only [View.answers, Option.bind_eq_bind, Option.bind_eq_some_iff] at h
  obtain ⟨⟨answer, v₁⟩, hstep, ⟨rest, v₂⟩, hrest, h⟩ := h
  cases h
  exact ⟨answer, v₁, rest, hstep, hrest, rfl⟩

/-! ### The calls -/

section
variable {H : Type}

/-- A call of `fread`, `fseek` or `fstat` on `fd`. -/
def fileCall (fd : Int) : FileOp → Exec Fault (FileState (FatState H)) Answer
  | .read size nmemb    => do
    let (res, bytes) ← fread size nmemb fd
    pure (.read res bytes)
  | .seek offset whence => do
    let res ← fseek fd offset whence
    pure (.seek res)
  | .stat               => do
    let (res, stat) ← fstat fd
    pure (.stat res stat)

/-- Calls on `fd`, one after the other, with what each returns. -/
def fileCalls (fd : Int) : List FileOp → Exec Fault (FileState (FatState H)) (List Answer)
  | []        => pure []
  | op :: ops => do
    let answer ← fileCall fd op
    let answers ← fileCalls fd ops
    pure (answer :: answers)

/-! ### A file on the disk -/

/-- The clusters `c 0`, …, `c k` of the file are on the disk, and enough for its size. -/
structure Stored (H : Type) (vol : Volume) (item : FatDirectoryItem) (c : Nat → Int) (k : Nat) :
    Prop where
  chain : Chain H vol c k
  first : c 0 = (fat16GetFirstCluster item).toInt
  covers : item.filesize.toNat ≤ (k + 1) * clusterBytes vol
  small : item.filesize.toNat < 2 ^ 31
  clusters : 0 < clusterBytes vol

/-- The file as its chain has it. -/
def fileView (vol : Volume) (item : FatDirectoryItem) (c : Nat → Int) (k pos : Nat) : View where
  contents := (chainContents vol c k).take item.filesize.toNat
  flags := if item.attributes &&& fatFileReadOnly ≠ 0 then fileStatReadOnly else 0
  pos := pos

/-- Each element that the call reads adjoins. -/
def FileOp.Adjoin (vol : Volume) (c : Nat → Int) (pos : Nat) : FileOp → Prop
  | .read size nmemb  => ∀ i < nmemb.toNat, Adjoins vol c (pos + i * size.toNat) size.toNat
  | .seek _ _ | .stat => True

/-- Each element that the calls read adjoins. -/
def AllAdjoin (vol : Volume) (c : Nat → Int) : View → List FileOp → Prop
  | _, [] => True
  | v, op :: ops =>
    op.Adjoin vol c v.pos ∧ ∀ answer v', v.step op = some (answer, v') → AllAdjoin vol c v' ops

variable {vol : Volume} {item : FatDirectoryItem} {c : Nat → Int} {k : Nat}

/-- An element that ends in the cluster it starts in. -/
theorem adjoins_of_inside {offset total : Nat}
    (h : offset % clusterBytes vol + total ≤ clusterBytes vol) : Adjoins vol c offset total := by
  intro i u hi _ hlt
  have hdiv := Nat.div_add_mod' offset (clusterBytes vol)
  have hmul := Nat.mul_le_mul_right (clusterBytes vol)
    (show offset / clusterBytes vol + 1 ≤ i + 1 by omega)
  rw [Nat.succ_mul] at hmul
  omega

theorem Stored.length (h : Stored H vol item c k) (pos : Nat) :
    (fileView vol item c k pos).contents.length = item.filesize.toNat := by
  rw [fileView, List.length_take, chainContents_eq, List.length_map, List.length_range]
  exact min_eq_left h.covers

/-- A slice of the contents, byte by byte. -/
theorem Stored.slice (h : Stored H vol item c k) {offset total : Nat} (p : Nat)
    (hend : offset + total ≤ item.filesize.toNat) :
    ((fileView vol item c k p).contents.drop offset).take total =
      (List.range total).map fun t => fileByte vol c (offset + t) := by
  have hcovers := h.covers
  rw [fileView, List.drop_take, List.take_take, min_eq_left (by omega),
    chainContents_slice vol c (by omega)]

theorem Stored.getD (h : Stored H vol item c k) {i : Nat} (p : Nat) (hi : i < item.filesize.toNat) :
    (fileView vol item c k p).contents.getD i 0 = fileByte vol c i := by
  have hone := congrArg List.head? (h.slice p (show i + 1 ≤ _ from hi))
  rw [List.head?_take, if_neg Nat.one_ne_zero, List.head?_drop] at hone
  rw [List.getD_eq_getElem?_getD, hone]
  rfl

/-! ### A read of several elements -/

/-- What `n` elements of `size` bytes from `offset` on are read as. -/
def readElements (vol : Volume) (c : Nat → Int) (size : Nat) : (n offset : Nat) → List U8
  | 0, _          => []
  | n + 1, offset =>
    readBytes vol (fun j => c (offset / clusterBytes vol + j)) (offset % clusterBytes vol) size ++
      readElements vol c size n (offset + size)

/-- They are read as they are exactly when each of them adjoins. -/
theorem readElements_eq_iff (hC : 0 < clusterBytes vol) (size n offset : Nat) :
    readElements vol c size n offset =
        (List.range (n * size)).map (fun t => fileByte vol c (offset + t)) ↔
      ∀ i < n, Adjoins vol c (offset + i * size) size := by
  induction n generalizing offset with
  | zero => simp [readElements]
  | succ n ih =>
      have hbytes : (List.range ((n + 1) * size)).map (fun t => fileByte vol c (offset + t)) =
          (List.range size).map (fun t => fileByte vol c (offset + t)) ++
            (List.range (n * size)).map (fun t => fileByte vol c (offset + size + t)) := by
        rw [Nat.succ_mul, Nat.add_comm (n * size), List.range_add, List.map_append, List.map_map]
        simp [Function.comp_def, Nat.add_assoc]
      have hlen : (readBytes vol (fun j => c (offset / clusterBytes vol + j))
          (offset % clusterBytes vol) size).length =
            ((List.range size).map fun t => fileByte vol c (offset + t)).length := by
        simp [readBytes]
      have hshift : ∀ i, offset + (i + 1) * size = offset + size + i * size := fun i => by
        rw [Nat.succ_mul]; omega
      rw [readElements, hbytes]
      constructor
      · intro h i hi
        obtain ⟨hfirst, hrest⟩ := List.append_inj h hlen
        cases i with
        | zero => simpa using (readBytes_eq_iff vol hC c offset size).mp hfirst
        | succ i =>
            rw [hshift]
            exact (ih (offset + size)).mp hrest i (Nat.lt_of_succ_lt_succ hi)
      · intro h
        have hfirst := h 0 (Nat.succ_pos n)
        rw [Nat.zero_mul, Nat.add_zero] at hfirst
        have hrest : ∀ i < n, Adjoins vol c (offset + size + i * size) size := fun i hi =>
          hshift i ▸ h (i + 1) (Nat.succ_lt_succ hi)
        rw [(readBytes_eq_iff vol hC c offset size).mpr hfirst, (ih (offset + size)).mpr hrest]

/-- Reading elements inside the file answers their bytes. -/
theorem readLoop_settles (hstored : Stored H vol item c k) {q : U32} {size : U32}
    (hsize : 0 < size.toNat) {n offset : Nat}
    (hend : offset + n * size.toNat ≤ item.filesize.toNat) :
    Settles (fat16ReadLoop vol (.file (.live q item)) size n offset : K H _)
      (.ok (0, ((offset + n * size.toNat : Nat) : Int),
        readElements vol c size.toNat n offset)) := by
  have hcovers := hstored.covers
  have hsmall := hstored.small
  induction n generalizing offset with
  | zero =>
      rw [Nat.zero_mul, Nat.add_zero]
      exact .pure _
  | succ n ih =>
      rw [Nat.succ_mul] at hend
      have hsizeInt : size.toInt = size.toNat := BitVec.toInt_eq_toNat_of_lt (by omega)
      have hnext : wrap32 ((offset : Int) + size.toNat) = ((offset + size.toNat : Nat) : Int) := by
        rw [wrap32_of_nonneg (by omega) (by omega)]
        omega
      have hread := fat16ReadInternal_settles (H := H) hstored.clusters hstored.chain hsize
        (show offset + size.toNat ≤ (k + 1) * clusterBytes vol by omega) (by omega)
      have hrest := ih (show offset + size.toNat + n * size.toNat ≤ _ by omega)
      rw [fat16ReadLoop, FatItem.itemMember, Ref.load, hsizeInt]
      refine .bind_ok (.lift _) ?_
      rw [← hstored.first]
      refine .bind_ok hread ?_
      dsimp only
      rw [if_neg (by decide), hnext]
      refine .bind_ok hrest ?_
      rw [show offset + (n + 1) * size.toNat = offset + size.toNat + n * size.toNat by
        rw [Nat.succ_mul]; omega]
      exact .pure _

variable {alloc : Allocator H} {fd : Int} {s : FileState (FatState H)}

/-- A read that stays in the file. -/
theorem fread_view (hstored : Stored H vol item c k) {pos : Nat}
    (hat : OnVolume alloc vol s fd item (BitVec.ofNat 32 pos)) {size nmemb : U32} (hsize : size ≠ 0)
    (hnmemb : nmemb ≠ 0) (hend : pos + nmemb.toNat * size.toNat ≤ item.filesize.toNat) :
    ∃ s', fread size nmemb fd s =
        .ok ((nmemb.toNat, readElements vol c size.toNat nmemb.toNat pos), s') ∧
      OnVolume alloc vol s' fd item (BitVec.ofNat 32 (pos + nmemb.toNat * size.toNat)) := by
  have hsmall := hstored.small
  have hsizeNat : 0 < size.toNat := by
    rcases Nat.eq_zero_or_pos size.toNat with h | h
    · exact absurd (BitVec.eq_of_toNat_eq h) hsize
    · exact h
  have hnmembNat : nmemb.toNat ≤ nmemb.toNat * size.toNat := Nat.le_mul_of_pos_right _ hsizeNat
  have hnmembInt : nmemb.toInt = nmemb.toNat := BitVec.toInt_eq_toNat_of_lt (by omega)
  have hposInt : (BitVec.ofNat 32 pos).toInt = pos := by
    rw [BitVec.toInt_eq_toNat_of_lt] <;> rw [BitVec.toNat_ofNat] <;> omega
  obtain ⟨ptr, desc, p, q, r, hget, hdesc⟩ := hat.file
  have hfd := (entry_of_live hget).1
  obtain ⟨driver, hloop⟩ := (readLoop_settles (H := H) hstored (q := r) hsizeNat hend).ok
    s.kernel.driver
  have hload : loadDescriptor desc.privateData s.kernel =
      .ok ({ item := .live q (.file (.live r item)), pos := BitVec.ofNat 32 pos }, s.kernel) :=
    loadDescriptor_eq_ok.mpr ⟨p, hdesc, rfl⟩
  obtain ⟨kernel, hread⟩ : ∃ kernel, fat16Read vol desc.privateData size nmemb s.kernel =
      .ok ((nmemb.toNat, readElements vol c size.toNat nmemb.toNat pos), kernel) := by
    refine ⟨⟨driver, Function.update s.kernel.descriptors desc.privateData (.live desc.privateData
      { item := .live q (.file (.live r item))
        pos := BitVec.ofInt 32 ((pos + nmemb.toNat * size.toNat : Nat) : Int) })⟩, ?_⟩
    rw [fat16Read, Exec.bind_ok hload, Ref.load, Exec.lift_ok_bind, hposInt,
      Exec.bind_ok (onDriver_eq_ok.mpr ⟨driver, hloop, rfl⟩)]
    dsimp only
    rw [if_neg (by decide), ← hnmembInt]
    rfl
  have hcall : fread size nmemb fd s =
      .ok ((nmemb.toNat, readElements vol c size.toNat nmemb.toNat pos), { s with kernel }) := by
    rw [fread_eq, if_neg (by simp only [hsize, hnmemb, false_or]; omega),
      withDescriptor_live hget (hat.filesystem _ _ hget)]
    exact onKernel_eq_ok.mpr ⟨kernel, hread, rfl⟩
  refine ⟨_, hcall, ?_⟩
  rcases fread_outcome hat hsize hnmemb hcall with ⟨-, hneg, -⟩ | ⟨-, -, hmoved⟩
  · omega
  · have hpos : BitVec.ofNat 32 pos + size * nmemb =
        BitVec.ofNat 32 (pos + nmemb.toNat * size.toNat) := by
      refine BitVec.eq_of_toNat_eq ?_
      rw [BitVec.toNat_add, BitVec.toNat_mul, BitVec.toNat_ofNat, BitVec.toNat_ofNat,
        Nat.mul_comm nmemb.toNat]
      omega
    rwa [← hpos]

/-- What `fstat` writes is what the directory item says, and nothing moves. -/
theorem fstat_view {pos : U32} (hat : OnVolume alloc vol s fd item pos) :
    fstat fd s = .ok ((0, some ⟨if item.attributes &&& fatFileReadOnly ≠ 0 then fileStatReadOnly else 0,
      item.filesize⟩), s) := by
  obtain ⟨ptr, desc, p, q, r, hget, hdesc⟩ := hat.file
  have hload : loadDescriptor desc.privateData s.kernel =
      .ok ({ item := .live q (.file (.live r item)), pos }, s.kernel) :=
    loadDescriptor_eq_ok.mpr ⟨p, hdesc, rfl⟩
  rw [fstat, withDescriptor_live hget (hat.filesystem _ _ hget)]
  refine onKernel_eq_ok.mpr ⟨s.kernel, ?_, rfl⟩
  show fat16Stat desc.privateData s.kernel = _
  rw [fat16Stat, Exec.bind_ok hload, Ref.load, Exec.lift_ok_bind]
  rfl

/-- Where the view is after a seek, the driver is. -/
theorem seekPosition_view (hstored : Stored H vol item c k) {pos : Nat} {offset : Int}
    {whence : FileSeekMode} {answer : Answer} {v' : View}
    (hstep : (fileView vol item c k pos).step (.seek offset whence) = some (answer, v')) :
    answer = .seek (seekPosition item.filesize (BitVec.ofNat 32 pos) (BitVec.ofInt 32 offset)
        whence).1 ∧
      (seekPosition item.filesize (BitVec.ofNat 32 pos) (BitVec.ofInt 32 offset) whence).2 =
        BitVec.ofNat 32 v'.pos ∧ v' = fileView vol item c k v'.pos := by
  have hlen := hstored.length pos
  simp only [View.step, hlen] at hstep
  simp only [seekPosition, ge_iff_le, BitVec.le_def]
  split at hstep
  · rename_i hge
    cases hstep
    rw [if_pos hge]
    exact ⟨rfl, rfl, rfl⟩
  · rename_i hlt
    rw [if_neg hlt]
    cases whence with
    | seekSet =>
        cases hstep
        exact ⟨rfl, by rw [BitVec.ofNat_toNat, BitVec.setWidth_eq], rfl⟩
    | seekEnd =>
        cases hstep
        exact ⟨rfl, rfl, rfl⟩
    | seekCur =>
        dsimp only at hstep
        split at hstep
        · cases hstep
          refine ⟨rfl, BitVec.eq_of_toNat_eq ?_, rfl⟩
          simp [fileView]
        · cases hstep
    | other =>
        cases hstep
        exact ⟨rfl, rfl, rfl⟩

/-! ### Calls that stay in the file -/

/-- **One call**: it returns, it leaves the file where the view is, and it gives what the view gives
exactly when each element it reads adjoins. -/
theorem fileCall_view (hstored : Stored H vol item c k) {pos : Nat}
    (hat : OnVolume alloc vol s fd item (BitVec.ofNat 32 pos)) {op : FileOp}
    {answer : Answer} {v' : View}
    (hstep : (fileView vol item c k pos).step op = some (answer, v')) :
    ∃ result s', fileCall fd op s = .ok (result, s') ∧
      OnVolume alloc vol s' fd item (BitVec.ofNat 32 v'.pos) ∧
      v' = fileView vol item c k v'.pos ∧ (result = answer ↔ op.Adjoin vol c pos) := by
  cases op with
  | seek offset whence =>
      obtain ⟨rfl, hpos, hv⟩ := seekPosition_view hstored hstep
      obtain ⟨s', hseek, hat'⟩ := hat.fseeks offset whence
      rw [hpos] at hat'
      exact ⟨_, s', by rw [fileCall, Exec.bind_ok hseek]; rfl, hat', hv, iff_of_true rfl trivial⟩
  | read size nmemb =>
      have hlen := hstored.length pos
      simp only [View.step, hlen] at hstep
      split at hstep
      · rename_i hargs
        cases hstep
        have hrefused : fread size nmemb fd s = .ok ((-einvarg, []), s) := by
          rw [fread_eq, if_pos (by tauto)]
          rfl
        refine ⟨_, s, by rw [fileCall, Exec.bind_ok hrefused]; rfl, hat, rfl,
          iff_of_true rfl fun i hi => ?_⟩
        -- elements without a byte, or no element
        rcases hargs with rfl | rfl
        · exact (readBytes_eq_iff vol hstored.clusters c _ _).mp rfl
        · exact absurd hi (Nat.not_lt_zero i)
      · rename_i hargs
        obtain ⟨hsize, hnmemb⟩ := not_or.mp hargs
        split at hstep
        · rename_i hend
          cases hstep
          obtain ⟨s', hread, hat'⟩ := fread_view hstored hat hsize hnmemb hend
          refine ⟨_, s', by rw [fileCall, Exec.bind_ok hread]; rfl, hat', rfl, ?_⟩
          rw [FileOp.Adjoin, ← readElements_eq_iff hstored.clusters, hstored.slice pos hend]
          simp [fileView]
        · cases hstep
  | stat =>
      cases hstep
      refine ⟨_, s, by rw [fileCall, Exec.bind_ok (fstat_view hat)]; rfl, hat, rfl,
        iff_of_true ?_ trivial⟩
      rw [hstored.length pos, BitVec.ofNat_toNat, BitVec.setWidth_eq]
      rfl

/-- **Calls that stay in the file** return, and give what the view gives exactly when each element
they read adjoins. -/
theorem calls_view (hstored : Stored H vol item c k) {ops : List FileOp} {pos : Nat}
    (hat : OnVolume alloc vol s fd item (BitVec.ofNat 32 pos))
    {answers : List Answer} {v' : View}
    (hview : (fileView vol item c k pos).answers ops = some (answers, v')) :
    ∃ results s', fileCalls fd ops s = .ok (results, s') ∧
      OnVolume alloc vol s' fd item (BitVec.ofNat 32 v'.pos) ∧
      (results = answers ↔ AllAdjoin vol c (fileView vol item c k pos) ops) := by
  induction ops generalizing pos s answers with
  | nil =>
      cases hview
      exact ⟨[], s, rfl, hat, iff_of_true rfl trivial⟩
  | cons op ops ih =>
      obtain ⟨answer, v₁, rest, hstep, hrest, rfl⟩ := View.answers_cons hview
      obtain ⟨result, s₁, hcall, hat₁, hv₁, hiff⟩ := fileCall_view hstored hat hstep
      rw [hv₁] at hrest
      obtain ⟨results, s', hcalls, hat', hiff'⟩ := ih hat₁ hrest
      refine ⟨result :: results, s', ?_, hat', ?_⟩
      · rw [fileCalls, Exec.bind_ok hcall, Exec.bind_ok hcalls]
        rfl
      · rw [List.cons.injEq, hiff, hiff', AllAdjoin, hstep, ← hv₁]
        simp [fileView]

end

end KernelNES.Fs
