import KernelNES.Fs.Basic
import KernelNES.Fs.Streamer
import Mathlib.Logic.Function.Basic

/-!
# Fs — Fat16

`src/fs/fat/fat16.c` up to `fat16_get_directory_entry`.  What `kzalloc` returns is owned: a pointer
is a `Ref`, and a directory or an item is a value behind it.  The three streams of
`struct fat_private` are part of the state.
-/

namespace KernelNES.Fs
open KernelNES.Lib KernelNES.Memory

/-! ### Constants -/

/-- `PEACHOS_FAT16_FAT_ENTRY_SIZE`. -/
def peachosFat16FatEntrySize : Int := 0x02

/-- `PEACHOS_FAT16_BAD_SECTOR`. -/
def peachosFat16BadSector : Int := 0xFF7

/-- `PEACHOS_FAT16_UNUSED`. -/
def peachosFat16Unused : Int := 0x00

/-- `FAT_FILE_SUBDIRECTORY`. -/
def fatFileSubdirectory : U8 := 0x10

/-! ### On the disk -/

/-- The fields of `struct fat_header` the driver reads. -/
structure FatHeader where
  sectorsPerCluster : U8
  reservedSectors : U16
  fatCopies : U8
  rootDirEntries : U16
  sectorsPerFat : U16
  deriving DecidableEq, Repr

/-- `sizeof(struct fat_directory_item)`. -/
def sizeofItem : Nat := 32

/-- The fields of `struct fat_directory_item` the driver reads. -/
structure FatDirectoryItem where
  filename : List U8
  ext : List U8
  attributes : U8
  high16BitsFirstCluster : U16
  low16BitsFirstCluster : U16
  filesize : U32
  deriving DecidableEq, Repr

/-- The little-endian `uint16_t` at index `i`. -/
def le16 (bytes : List U8) (i : Nat) : U16 := bytes.getD (i + 1) 0 ++ bytes.getD i 0

/-- The packed `struct fat_directory_item` in 32 bytes. -/
def FatDirectoryItem.ofBytes (bytes : List U8) : FatDirectoryItem where
  filename := bytes.take 8
  ext := (bytes.drop 8).take 3
  attributes := bytes.getD 11 0
  high16BitsFirstCluster := le16 bytes 20
  low16BitsFirstCluster := le16 bytes 26
  filesize := le16 bytes 30 ++ le16 bytes 28

/-! ### In memory -/

/-- `struct fat_directory`; `item` points to an array of items, given by its bytes. -/
structure FatDirectory where
  item : Ref (List U8)
  total : Int
  sectorPos : Int
  endingSectorPos : Int
  deriving DecidableEq, Repr

/-- `struct fat_item`, by its type. -/
inductive FatItem where
  | directory (directory : Ref FatDirectory)
  | file (item : Ref FatDirectoryItem)
  deriving DecidableEq, Repr

/-- The streams of `struct fat_private`.  None is `NULL`: `diskstreamer_new` writes through the
pointer it returns. -/
inductive StreamId where
  | clusterRead
  | fatRead
  | directory
  deriving DecidableEq, Repr

/-- A mounted disk: the disk, and the parts of `struct fat_private` that stay as `fat16_resolve`
sets them. -/
structure Volume where
  disk : Disk
  header : FatHeader
  rootDirectory : FatDirectory

/-- What the driver changes: the state of the heap and the positions of the streams. -/
structure KState (H : Type) where
  heap : H
  pos : StreamId → Int

/-- The driver's code, over a heap `H`. -/
abbrev K (H : Type) := Exec Fault (KState H)

section
variable {H : Type}

/-! ### The heap and the streams -/

/-- `kzalloc`. -/
def kzalloc (alloc : Allocator H) (size : U32) : K H U32 := fun s =>
  let (ptr, heap) := alloc.kzalloc size s.heap
  .ok (ptr, { s with heap })

/-- `kfree`. -/
def kfree (alloc : Allocator H) (ptr : U32) : K H Unit := fun s =>
  .ok ((), { s with heap := alloc.kfree ptr s.heap })

/-- `diskstreamer_seek`. -/
def diskstreamerSeek (stream : StreamId) (pos : Int) : K H Int := fun s =>
  .ok (0, { s with pos := Function.update s.pos stream pos })

/-- `diskstreamer_read` from a stream of the driver: the status and the bytes written. -/
def streamRead (disk : Disk) (stream : StreamId) (total : Int) : K H (Int × List U8) := fun s =>
  match diskstreamerRead disk (s.pos stream) total with
  | .error e => .error e
  | .ok (res, out, pos) => .ok ((res, out), { s with pos := Function.update s.pos stream pos })

/-! ### Counting the items of a directory -/

/-- `fat16_sector_to_absolute`. -/
def fat16SectorToAbsolute (sector : Int) : Int := wrap32 (sector * peachosSectorSize)

/-- The loop of `fat16_get_total_items_for_directory`, with `fuel` rounds left. -/
def fat16GetTotalItemsLoop (disk : Disk) : (fuel : Nat) → (i : Nat) → K H Int
  | 0, _ => Exec.fault .diverges
  | fuel + 1, i => do
    let (res, item) ← streamRead disk .directory sizeofItem
    if res ≠ 0 then pure (-eio)
    else if item.headD 0 = 0x00 then pure i
    else if item.headD 0 = 0xE5 then fat16GetTotalItemsLoop disk fuel i
    else fat16GetTotalItemsLoop disk fuel (i + 1)

/-- The rounds the loop is given: from any position the `2²⁶ + 2` next slots reach a negative
position inside a sector, from which the read leaves the sector buffer. -/
def totalItemsFuel : Nat := 2 ^ 26 + 2

/-- `fat16_get_total_items_for_directory`. -/
def fat16GetTotalItemsForDirectory (disk : Disk) (directoryStartSector : U32) : K H Int := do
  let directoryStartPos := (directoryStartSector * 512).toInt
  let res ← diskstreamerSeek .directory directoryStartPos
  if res ≠ 0 then pure (-eio) else fat16GetTotalItemsLoop disk totalItemsFuel 0

/-- `root_dir_sector_pos`. -/
def rootDirSectorPos (header : FatHeader) : Int :=
  header.fatCopies.toNat * header.sectorsPerFat.toNat + header.reservedSectors.toNat

/-- `root_dir_size`. -/
def rootDirSize (header : FatHeader) : Int := header.rootDirEntries.toNat * sizeofItem

/-- `total_sectors` of the root directory. -/
def rootDirTotalSectors (header : FatHeader) : Int :=
  let totalSectors := (rootDirSize header).tdiv peachosSectorSize
  if (rootDirSize header).tmod peachosSectorSize ≠ 0 then totalSectors + 1 else totalSectors

/-- `fat16_get_root_directory`: the status and, when it is `0`, the directory. -/
def fat16GetRootDirectory (alloc : Allocator H) (disk : Disk) (header : FatHeader) :
    K H (Int × Option FatDirectory) := do
  let totalItems ← fat16GetTotalItemsForDirectory disk (BitVec.ofInt 32 (rootDirSectorPos header))
  let dir ← kzalloc alloc (BitVec.ofInt 32 (rootDirSize header))
  if dir = 0 then pure (-enomem, none)
  else
    let res ← diskstreamerSeek .directory (fat16SectorToAbsolute (rootDirSectorPos header))
    if res ≠ 0 then do
      kfree alloc dir
      pure (-eio, none)
    else
      let (res, bytes) ← streamRead disk .directory (rootDirSize header)
      if res ≠ 0 then do
        kfree alloc dir
        pure (-eio, none)
      else
        pure (0, some
          { item := .live dir bytes
            total := totalItems
            sectorPos := rootDirSectorPos header
            endingSectorPos := rootDirSectorPos header + rootDirTotalSectors header })

/-! ### Items -/

/-- `fat16_to_proper_string`: `input` holds `size` bytes. -/
def fat16ToProperString : (input : List U8) → Name
  | [] => []
  | b :: input => if b ≠ 0x00 ∧ b ≠ 0x20 then b :: fat16ToProperString input else []

/-- `fat16_get_full_relative_filename`. -/
def fat16GetFullRelativeFilename (item : FatDirectoryItem) : Name :=
  let out := fat16ToProperString item.filename
  if item.ext.headD 0 ≠ 0x00 ∧ item.ext.headD 0 ≠ 0x20 then
    out ++ 0x2E :: fat16ToProperString item.ext
  else out

/-- `fat16_clone_directory_item`. -/
def fat16CloneDirectoryItem (alloc : Allocator H) (item : FatDirectoryItem) (size : Nat) :
    K H (Ref FatDirectoryItem) := do
  if size < sizeofItem then pure .null
  else
    let itemCopy ← kzalloc alloc (BitVec.ofNat 32 size)
    if itemCopy = 0 then pure .null else pure (.live itemCopy item)

/-- `fat16_get_first_cluster`. -/
def fat16GetFirstCluster (item : FatDirectoryItem) : U32 :=
  (item.high16BitsFirstCluster ||| item.low16BitsFirstCluster).setWidth 32

/-- `fat16_cluster_to_sector`. -/
def fat16ClusterToSector (vol : Volume) (cluster : Int) : Int :=
  wrap32 (vol.rootDirectory.endingSectorPos +
    (cluster - 2) * vol.header.sectorsPerCluster.toNat)

/-- `fat16_get_first_fat_sector`. -/
def fat16GetFirstFatSector (vol : Volume) : U32 := vol.header.reservedSectors.setWidth 32

/-! ### The chain of clusters -/

/-- `fat16_get_fat_entry`. -/
def fat16GetFatEntry (vol : Volume) (cluster : Int) : K H Int := do
  let fatTablePosition := fat16GetFirstFatSector vol * 512
  let res ← diskstreamerSeek .fatRead
    (fatTablePosition + BitVec.ofInt 32 (cluster * peachosFat16FatEntrySize)).toInt
  if res < 0 then pure res
  else
    let (res, result) ← streamRead vol.disk .fatRead 2
    if res < 0 then pure res else pure (le16 result 0).toNat

/-- The loop of `fat16_get_cluster_for_offset`, with `n` clusters still ahead. -/
def fat16GetClusterLoop (vol : Volume) : (n : Nat) → (clusterToUse : Int) → K H Int
  | 0, clusterToUse => pure clusterToUse
  | n + 1, clusterToUse => do
    let entry ← fat16GetFatEntry vol clusterToUse
    if entry = 0xFFF8 ∨ entry = 0xFFFF then pure (-eio)
    else if entry = peachosFat16BadSector then pure (-eio)
    else if entry = 0xFF0 ∨ entry = 0xFF6 then pure (-eio)
    else if entry = peachosFat16Unused then pure (-eio)
    else fat16GetClusterLoop vol n entry

/-- `size_of_cluster_bytes`. -/
def sizeOfClusterBytes (vol : Volume) : Int :=
  vol.header.sectorsPerCluster.toNat * peachosSectorSize

/-- `fat16_get_cluster_for_offset`. -/
def fat16GetClusterForOffset (vol : Volume) (startingCluster offset : Int) : K H Int :=
  if sizeOfClusterBytes vol = 0 then Exec.fault .divisionByZero
  else fat16GetClusterLoop vol (offset.tdiv (sizeOfClusterBytes vol)).toNat startingCluster

theorem sizeOfClusterBytes_nonneg (vol : Volume) : 0 ≤ sizeOfClusterBytes vol := by
  simp only [sizeOfClusterBytes, peachosSectorSize]; omega

/-- A round that does not read everything leaves less to read. -/
theorem readRound_decreases {vol : Volume} {total : Int} (hC : ¬ sizeOfClusterBytes vol = 0)
    (h : total - (if total > sizeOfClusterBytes vol then sizeOfClusterBytes vol else total) > 0) :
    (total - (if total > sizeOfClusterBytes vol then sizeOfClusterBytes vol else total)).toNat <
      total.toNat := by
  have := sizeOfClusterBytes_nonneg vol
  split at h <;> omega

/-- `fat16_read_internal_from_stream`: the status and the bytes written to `out`. -/
def fat16ReadInternalFromStream (vol : Volume) (stream : StreamId) (cluster offset total : Int) :
    K H (Int × List U8) := do
  let clusterToUse ← fat16GetClusterForOffset vol cluster offset
  if clusterToUse < 0 then pure (clusterToUse, [])
  -- the second division by `size_of_cluster_bytes`
  else if _ : sizeOfClusterBytes vol = 0 then Exec.fault .divisionByZero
  else
    let offsetFromCluster := offset.tmod (sizeOfClusterBytes vol)
    let startingSector := fat16ClusterToSector vol clusterToUse
    let startingPos := wrap32 (startingSector * peachosSectorSize + offsetFromCluster)
    let totalToRead := if total > sizeOfClusterBytes vol then sizeOfClusterBytes vol else total
    let res ← diskstreamerSeek stream startingPos
    if res ≠ 0 then pure (res, [])
    else
      let (res, out) ← streamRead vol.disk stream totalToRead
      if res ≠ 0 then pure (res, out)
      else if _ : total - totalToRead > 0 then do
        let (res, rest) ← fat16ReadInternalFromStream vol stream cluster
          (wrap32 (offset + totalToRead)) (total - totalToRead)
        pure (res, out ++ rest)
      else pure (res, out)
termination_by total.toNat
decreasing_by
  exact readRound_decreases ‹_› ‹_›

/-- `fat16_read_internal`. -/
def fat16ReadInternal (vol : Volume) (startingCluster offset total : Int) : K H (Int × List U8) :=
  fat16ReadInternalFromStream vol .clusterRead startingCluster offset total

/-! ### Loading and searching directories -/

/-- `fat16_free_directory`. -/
def fat16FreeDirectory (alloc : Allocator H) (directory : Ref FatDirectory) : K H Unit := do
  if directory = .null then pure ()
  else
    let contents ← Exec.lift directory.load
    if contents.item ≠ .null then kfree alloc contents.item.addr
    kfree alloc directory.addr

/-- `fat16_fat_item_free`. -/
def fat16FatItemFree (alloc : Allocator H) (item : Ref FatItem) : K H Unit := do
  match ← Exec.lift item.load with
  | .directory directory => fat16FreeDirectory alloc directory
  | .file item => kfree alloc item.addr
  kfree alloc item.addr

/-- A block of `size` zeros from `kzalloc` once `bytes` are written to its start. -/
def zeroPadded (size : U32) (bytes : List U8) : List U8 :=
  bytes ++ List.replicate (size.toNat - bytes.length) 0

/-- `fat16_load_fat_directory`.  The pointer returned after a failure past the first allocation has
been freed. -/
def fat16LoadFatDirectory (alloc : Allocator H) (vol : Volume) (item : FatDirectoryItem) :
    K H (Ref FatDirectory) := do
  if item.attributes &&& fatFileSubdirectory = 0 then pure .null
  else
    let directory ← kzalloc alloc 16
    if directory = 0 then pure .null
    else
      let cluster : Int := (fat16GetFirstCluster item).toInt
      let clusterSector := fat16ClusterToSector vol cluster
      let totalItems ← fat16GetTotalItemsForDirectory vol.disk (BitVec.ofInt 32 clusterSector)
      let directorySize := wrap32 (totalItems * sizeofItem)
      let contents : FatDirectory :=
        { item := .null, total := totalItems, sectorPos := 0, endingSectorPos := 0 }
      let array ← kzalloc alloc (BitVec.ofInt 32 directorySize)
      if array = 0 then do
        fat16FreeDirectory alloc (.live directory contents)
        pure (.dangling directory)
      else
        let (res, bytes) ← fat16ReadInternal vol cluster 0x00 directorySize
        let contents :=
          { contents with item := .live array (zeroPadded (BitVec.ofInt 32 directorySize) bytes) }
        if res ≠ 0 then do
          fat16FreeDirectory alloc (.live directory contents)
          pure (.dangling directory)
        else pure (.live directory contents)

/-- `fat16_new_fat_item_for_directory_item`. -/
def fat16NewFatItemForDirectoryItem (alloc : Allocator H) (vol : Volume)
    (item : FatDirectoryItem) : K H (Ref FatItem) := do
  let fItem ← kzalloc alloc 8
  if fItem = 0 then pure .null
  else if item.attributes &&& fatFileSubdirectory ≠ 0 then
    let directory ← fat16LoadFatDirectory alloc vol item
    pure (.live fItem (.directory directory))
  else
    let copy ← fat16CloneDirectoryItem alloc item sizeofItem
    pure (.live fItem (.file copy))

/-- `directory->item[i]`. -/
def FatDirectory.slot (directory : FatDirectory) (i : Nat) : Except Fault FatDirectoryItem := do
  let bytes ← directory.item.load
  if sizeofItem * (i + 1) ≤ bytes.length then
    .ok (.ofBytes ((bytes.drop (sizeofItem * i)).take sizeofItem))
  else .error .outOfBounds

/-- The name of a slot is the one searched. -/
def FatDirectoryItem.Named (item : FatDirectoryItem) (name : Name) : Prop :=
  istrncmp (fat16GetFullRelativeFilename item) name peachosMaxPath = 0

instance (item : FatDirectoryItem) (name : Name) : Decidable (item.Named name) :=
  inferInstanceAs (Decidable (_ = _))

/-- The loop of `fat16_find_item_in_directory`: `n` slots are left, from slot `i` on. -/
def fat16FindItemLoop (alloc : Allocator H) (vol : Volume) (directory : FatDirectory)
    (name : Name) : (n i : Nat) → (fItem : Ref FatItem) → K H (Ref FatItem)
  | 0, _, fItem => pure fItem
  | n + 1, i, fItem => do
    let item ← Exec.lift (directory.slot i)
    if item.Named name then
      let fItem ← fat16NewFatItemForDirectoryItem alloc vol item
      fat16FindItemLoop alloc vol directory name n (i + 1) fItem
    else fat16FindItemLoop alloc vol directory name n (i + 1) fItem

/-- `fat16_find_item_in_directory`. -/
def fat16FindItemInDirectory (alloc : Allocator H) (vol : Volume) (directory : FatDirectory)
    (name : Name) : K H (Ref FatItem) :=
  fat16FindItemLoop alloc vol directory name directory.total.toNat 0 .null

/-! ### Walking a path -/

/-- The loop of `fat16_get_directory_entry`, with the parts `next` still to come. -/
def fat16GetDirectoryEntryLoop (alloc : Allocator H) (vol : Volume) :
    (next : List Name) → (currentItem : Ref FatItem) → K H (Ref FatItem)
  | [], currentItem => pure currentItem
  | part :: next, currentItem => do
    match ← Exec.lift currentItem.load with
    | .file _ => pure .null
    | .directory directory =>
      -- `directory->total` is the first thing the search reads
      let directory ← Exec.lift directory.load
      let tmpItem ← fat16FindItemInDirectory alloc vol directory part
      fat16FatItemFree alloc currentItem
      fat16GetDirectoryEntryLoop alloc vol next tmpItem

/-- `fat16_get_directory_entry` of the path with first part `part` and further parts `next`. -/
def fat16GetDirectoryEntry (alloc : Allocator H) (vol : Volume) (part : Name) (next : List Name) :
    K H (Ref FatItem) := do
  let rootItem ← fat16FindItemInDirectory alloc vol vol.rootDirectory part
  if rootItem = .null then pure .null
  else fat16GetDirectoryEntryLoop alloc vol next rootItem

end

end KernelNES.Fs
