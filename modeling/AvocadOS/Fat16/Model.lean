import AvocadOS.Disk.Stream
import AvocadOS.String

/-!
# `fat16.c`

The FAT16 driver over the one stream `private->dev` that all its descriptors share. Offsets and
cluster numbers are `Nat`s with the wrap of their C type written out. A descriptor is passed in and
out; what the code writes to a caller's buffer is returned as the list of the bytes.

A `fat_entry_t` is its 32 bytes on the disk, so that a short read leaves the rest of the entry as
it was. The allocations of `fat16_probe` and `fat16_find_entry_in_dir` are parameters here.
-/

set_option linter.style.nameCheck false

namespace AvocadOS

/-! ## On-disk structures -/

def FAT16_SIGNATURE : Nat := 0x29
def FAT16_SYSTEM_ID : List Byte := ascii "FAT16   "
def FAT16_SYSTEM_ID_LEN : Nat := 8

def FAT16_FILE_VOLUME_LABEL : Byte := 0x08
def FAT16_FILE_SUBDIRECTORY : Byte := 0x10
def FAT16_FILE_LFN : Byte := 0x0F

def FAT16_CLUSTER_RESERVED : Nat := 0xFFF6
def FAT16_CLUSTER_BAD_OR_RESERVED : Nat := 0xFFF7
def FAT16_CLUSTER_CHAIN_END_BEGIN : Nat := 0xFFF8

/-- A `uint16_t` at offset `i` of a packed structure. -/
def le16 (bs : List Byte) (i : Nat) : Nat := (charAt bs i).toNat + 2 ^ 8 * (charAt bs (i + 1)).toNat

/-- A `uint32_t` at offset `i` of a packed structure. -/
def le32 (bs : List Byte) (i : Nat) : Nat := le16 bs i + 2 ^ 16 * le16 bs (i + 2)

/-- The fields of `struct fat_header_t` that the driver uses. -/
structure FatHeader where
  bytesPerSector : Nat
  sectorsPerCluster : Nat
  reservedSectors : Nat
  fatCopies : Nat
  rootDirEntries : Nat
  sectorsPerFat : Nat
  signature : Nat
  systemIdString : List Byte

def FAT_HEADER_SIZE : Nat := 62

def FatHeader.ofBytes (bs : List Byte) : FatHeader where
  bytesPerSector := le16 bs 11
  sectorsPerCluster := (charAt bs 13).toNat
  reservedSectors := le16 bs 14
  fatCopies := (charAt bs 16).toNat
  rootDirEntries := le16 bs 17
  sectorsPerFat := le16 bs 22
  signature := (charAt bs 38).toNat
  systemIdString := (bs.drop 54).take 8

def FAT_ENTRY_SIZE : Nat := 32

/-- `struct fat_entry_t`, a directory slot. -/
structure FatEntry where
  byte : Fin 32 → Byte

namespace FatEntry

/-- `{ 0 }`. -/
def zero : FatEntry := ⟨fun _ => 0⟩

/-- The entry after the bytes `bs` have been read into its beginning. -/
def overlay (e : FatEntry) (bs : List Byte) : FatEntry := ⟨fun i => bs.getD i (e.byte i)⟩

def raw (e : FatEntry) : List Byte := List.ofFn e.byte

def filename (e : FatEntry) : List Byte := e.raw.take 8
def extension (e : FatEntry) : List Byte := (e.raw.drop 8).take 3
def attributes (e : FatEntry) : Byte := e.byte 11
def low16BitsFirstCluster (e : FatEntry) : Nat := le16 e.raw 26
def sizeBytes (e : FatEntry) : Nat := le32 e.raw 28

end FatEntry

/-- `FAT_ENTRY_TYPE`. -/
inductive FatEntryType where
  | directory
  | file
  | rootDirectory
  deriving DecidableEq

structure FatItem where
  type : FatEntryType
  entry : FatEntry
  firstSector : Nat
  parentDirFirstSector : Nat
  parentDirPosition : Nat

/-- `struct fat_descriptor_t` of the one disk. -/
structure FatDescriptor where
  item : FatItem
  eof : Bool
  pos : Nat
  relativePos : Nat
  currentClusterFirstSector : Nat
  error : Int

/-- `struct fat_private_data_t` but for its stream. -/
structure FatPrivate where
  header : FatHeader
  bytesPerCluster : Nat
  dataSector : Nat
  rootDirectory : FatItem

/-! ## Clusters -/

def fat16ClusterNumberToDataSector (p : FatPrivate) (cluster : Nat) : Nat :=
  if cluster < 2 then 0
  else u32 (p.dataSector + (cluster - 2) * p.header.sectorsPerCluster)

def fat16ClusterNumberToDataAddress (p : FatPrivate) (cluster : Nat) : Nat :=
  u32 (fat16ClusterNumberToDataSector p cluster * p.header.bytesPerSector)

def fat16SectorToClusterNumber (p : FatPrivate) (sector : Nat) : DevM Nat :=
  if p.header.sectorsPerCluster = 0 then throw .divideByZero
  else pure ((2 + sub32 sector p.dataSector / p.header.sectorsPerCluster) % 2 ^ 16)

def fat16ReadFat (p : FatPrivate) (cluster : Nat) : DevM Nat :=
  if FAT16_CLUSTER_CHAIN_END_BEGIN ≤ cluster then pure FAT16_CLUSTER_CHAIN_END_BEGIN
  else do
    let clusterFatByteOffset := cluster * 2
    let clusterAddress :=
      u32 (p.header.reservedSectors * p.header.bytesPerSector + clusterFatByteOffset)
    let _ ← diskstreamSeek clusterAddress
    let (_, nextCluster) ← diskstreamRead 2
    pure (le16 nextCluster 0)

/-- The loop goes on for `steps` links or until it meets an end mark; it breaks at 0 and at the
two reserved values. -/
def fat16FollowClusterChain (p : FatPrivate) (cluster : Nat) : Nat → DevM Nat
  | 0 => pure cluster
  | steps + 1 =>
    if cluster < FAT16_CLUSTER_CHAIN_END_BEGIN then do
      let nextCluster ← fat16ReadFat p cluster
      if nextCluster = 0 ∨ nextCluster = FAT16_CLUSTER_RESERVED ∨
          nextCluster = FAT16_CLUSTER_BAD_OR_RESERVED then pure nextCluster
      else fat16FollowClusterChain p nextCluster steps
    else pure cluster

/-- `struct fat_cluster_chain` but for its volume. -/
structure FatClusterChain where
  first : Nat
  previous : Nat
  current : Nat

def fat16ClusterChainInit (start : Nat) : FatClusterChain where
  first := start
  previous := start
  current := start

def fat16ClusterChainNext (p : FatPrivate) (chain : FatClusterChain) : DevM FatClusterChain :=
  if chain.current = FAT16_CLUSTER_BAD_OR_RESERVED ∨ chain.current = FAT16_CLUSTER_RESERVED ∨
      FAT16_CLUSTER_CHAIN_END_BEGIN ≤ chain.current then pure chain
  else do
    let next ← fat16ReadFat p chain.current
    pure { chain with previous := chain.current, current := next }

def fat16ClusterChainIsOver (chain : FatClusterChain) : Bool :=
  chain.current == FAT16_CLUSTER_CHAIN_END_BEGIN

def fat16ClusterChainOk (chain : FatClusterChain) : Bool :=
  chain.current != FAT16_CLUSTER_BAD_OR_RESERVED && chain.current != FAT16_CLUSTER_RESERVED

/-! ## Cursors -/

def fat16ItemIsRootDir (p : FatPrivate) (dir : FatItem) : Bool :=
  dir.type == .rootDirectory && dir.firstSector == p.rootDirectory.firstSector

def __fat16ResetCursors (d : FatDescriptor) : FatDescriptor :=
  { d with pos := 0, relativePos := 0, currentClusterFirstSector := d.item.firstSector, eof := false }

def __fat16AdjustCursorsRootDir (p : FatPrivate) (d : FatDescriptor) : FatDescriptor × Int :=
  let d := { d with relativePos := d.pos }
  if p.dataSector ≤ d.pos then
    let d := { d with eof := true }
    if p.dataSector < d.pos then ({ d with error := - EIO }, - EIO) else (d, 0)
  else (d, 0)

def __fat16AdjustCursorsNonRoot (p : FatPrivate) (d : FatDescriptor) :
    DevM (FatDescriptor × Int) :=
  if d.item.entry.low16BitsFirstCluster = 0 then pure ({ d with eof := true }, 0)
  else if p.bytesPerCluster = 0 then throw .divideByZero
  else do
    let clusterCount := d.pos / p.bytesPerCluster
    let firstCluster ← fat16SectorToClusterNumber p d.item.firstSector
    let currentCluster ← fat16FollowClusterChain p firstCluster clusterCount
    let d := { d with relativePos := d.pos % p.bytesPerCluster }
    if currentCluster = FAT16_CLUSTER_RESERVED ∨ currentCluster = FAT16_CLUSTER_BAD_OR_RESERVED then
      pure ({ d with error := - EIO }, - EIO)
    else if currentCluster < FAT16_CLUSTER_CHAIN_END_BEGIN then
      pure ({ d with
        currentClusterFirstSector := fat16ClusterNumberToDataSector p currentCluster }, 0)
    else pure ({ d with eof := true }, 0)

def __fat16AdjustCursors (p : FatPrivate) (d : FatDescriptor) (offset : Int) :
    DevM (FatDescriptor × Int) :=
  let d := { d with pos := asSizeT (d.pos + offset) }
  if fat16ItemIsRootDir p d.item then pure (__fat16AdjustCursorsRootDir p d)
  else __fat16AdjustCursorsNonRoot p d

def __fat16DescriptorToAbsoluteAddress (p : FatPrivate) (d : FatDescriptor) : Nat :=
  let dataRegionAddr := u32 (d.currentClusterFirstSector * p.header.bytesPerSector)
  u32 (dataRegionAddr + d.relativePos)

/-! ## Reading -/

/-- The loop of `__fat16_read`: `out` holds the `read` bytes. The returned value is what the
callers store in an `int`. Every iteration but the last reads at least one byte. -/
def __fat16ReadLoop (p : FatPrivate) (len : Nat) :
    Nat → FatDescriptor → List Byte → DevM (FatDescriptor × Int × List Byte)
  | 0, d, out => pure (d, asInt out.length, out)
  | fuel + 1, d, out =>
    if out.length < len ∧ d.eof = false then do
      let _ ← diskstreamSeek (__fat16DescriptorToAbsoluteAddress p d)
      let toReadSequentially := min (len - out.length) (sub32 p.bytesPerCluster d.relativePos)
      let (chunkRead, chunk) ← diskstreamRead (asInt toReadSequentially)
      if chunkRead ≤ 0 then pure ({ d with error := chunkRead }, chunkRead, out ++ chunk)
      else do
        let (d, res) ← __fat16AdjustCursors p d chunkRead
        if res ≠ 0 then pure (d, res, out ++ chunk)
        else __fat16ReadLoop p len fuel d (out ++ chunk)
    else pure (d, asInt out.length, out)

/-- `__fat16_read`: the descriptor, the returned value and the bytes written to `ptr`. -/
def __fat16Read (p : FatPrivate) (d : FatDescriptor) (len : Nat) :
    DevM (FatDescriptor × Int × List Byte) :=
  __fat16ReadLoop p len len d []

/-- `fat16_read`: the descriptor, the returned `size_t` and the bytes written to `out`. -/
def fat16Read (p : FatPrivate) (d : FatDescriptor) (size nmemb : Nat) :
    DevM (FatDescriptor × Nat × List Byte) := do
  let (d, res) ← __fat16AdjustCursors p d 0
  if res ≠ 0 then return (d, asSizeT res, [])
  if d.eof then return (d, 0, [])
  if d.item.entry.sizeBytes ≤ d.pos then return ({ d with eof := true }, 0, [])
  let len := min (u32 (size * nmemb)) (d.item.entry.sizeBytes - d.pos)
  let (d, res, out) ← __fat16Read p d len
  let d := if d.item.entry.sizeBytes ≤ d.pos then { d with eof := true } else d
  return (d, asSizeT res, out)

/-! ## Directories -/

/-- `len` characters of `str`, padded with spaces. -/
def padded (str : List Byte) (len : Nat) : List Byte :=
  let n := strnlen str len
  (List.range len).map fun i => if i < n then charAt str i else 0x20

/-- Slots that are skipped. -/
def FatEntry.isLfnOrLabel (e : FatEntry) : Bool :=
  e.attributes == FAT16_FILE_LFN || e.attributes &&& FAT16_FILE_VOLUME_LABEL != 0

/-- The loop of `fat16_find_entry_in_dir`: the matching entry with its 1-based slot number, or
`none` at the end of the directory and after a failed read. -/
def findEntryLoop (p : FatPrivate) (paddedFilename paddedExtension : List Byte) :
    Nat → FatDescriptor → FatEntry → Nat → DevM (FatDescriptor × Option (FatEntry × Nat))
  | 0, _, _, _ => throw .hang
  | fuel + 1, d, entry, dirPos =>
    if d.eof then pure (d, none)
    else do
      let (d, res, bytes) ← __fat16Read p d FAT_ENTRY_SIZE
      let entry := entry.overlay bytes
      if res < 0 then pure (d, none)
      else if entry.isLfnOrLabel then
        findEntryLoop p paddedFilename paddedExtension fuel d entry (dirPos + 1)
      else if charAt entry.filename 0 = 0 then pure ({ d with eof := true }, none)
      else if strncmp paddedFilename entry.filename 8 ≠ 0 ∨
          strncmp paddedExtension entry.extension 3 ≠ 0 then
        findEntryLoop p paddedFilename paddedExtension fuel d entry (dirPos + 1)
      else pure (d, some (entry, dirPos + 1))

/-- The item of a matching entry of the directory `dir`. -/
def FatItem.ofEntry (p : FatPrivate) (dir : FatItem) (entry : FatEntry) (dirPos : Nat) : FatItem where
  type := if FAT16_FILE_SUBDIRECTORY &&& entry.attributes ≠ 0 then .directory else .file
  entry := entry
  firstSector := fat16ClusterNumberToDataSector p entry.low16BitsFirstCluster
  parentDirFirstSector := dir.firstSector
  parentDirPosition := dirPos

/-- `fat16_find_entry_in_dir`; `kzallocOk` says whether the `kzalloc` of the item succeeds. -/
def fat16FindEntryInDir (kzallocOk : Bool) (fuel : Nat) (p : FatPrivate) (d : FatDescriptor)
    (filename extension : List Byte) : DevM (FatDescriptor × Option FatItem) :=
  if d.item.type ≠ .directory ∧ d.item.type ≠ .rootDirectory then pure (d, none)
  else do
    let d := __fat16ResetCursors d
    let (d, found) ← findEntryLoop p (padded filename 8) (padded extension 3) fuel d .zero 0
    match found with
    | none => pure (__fat16ResetCursors d, none)
    | some (entry, dirPos) =>
      if kzallocOk then pure (__fat16ResetCursors d, some (.ofEntry p d.item entry dirPos))
      else pure (d, none)

/-- The loop of `fat16_count_dir_items`: the count, or `none` after a failed read. `entry` is not
initialised: it starts as whatever its place on the stack holds. -/
def countDirItemsLoop (p : FatPrivate) :
    Nat → FatDescriptor → FatEntry → Int → DevM (FatDescriptor × Option Int)
  | 0, _, _, _ => throw .hang
  | fuel + 1, d, entry, count =>
    if d.eof then pure (d, some count)
    else do
      let (d, res, bytes) ← __fat16Read p d FAT_ENTRY_SIZE
      let entry := entry.overlay bytes
      if res < 0 then pure (d, none)
      else if entry.isLfnOrLabel then countDirItemsLoop p fuel d entry count
      else if charAt entry.filename 0 = 0 then pure ({ d with eof := true }, some count)
      else countDirItemsLoop p fuel d entry (count + 1)

/-- `fat16_count_dir_items`; `stale` is what the stack holds. -/
def fat16CountDirItems (stale : FatEntry) (fuel : Nat) (p : FatPrivate) (d : FatDescriptor) :
    DevM (FatDescriptor × Int) := do
  let d := __fat16ResetCursors d
  let (d, count) ← countDirItemsLoop p fuel d stale 0
  match count with
  | none => pure (d, - EIO)
  | some count => pure (__fat16ResetCursors d, count)

/-! ## Probe and open -/

/-- The geometry that `fat16_probe` computes from a header. -/
def FatPrivate.ofHeader (header : FatHeader) : FatPrivate :=
  let firstSector := header.reservedSectors + header.fatCopies * header.sectorsPerFat
  { header := header
    bytesPerCluster := header.bytesPerSector * header.sectorsPerCluster
    dataSector := firstSector +
      u32 (header.rootDirEntries * FAT_ENTRY_SIZE + header.bytesPerSector - 1) /
        header.bytesPerSector
    rootDirectory :=
      { type := .rootDirectory, entry := .zero, firstSector := firstSector
        parentDirFirstSector := 0, parentDirPosition := 0 } }

/-- `fat16_probe`; `kzallocOk k` says whether its `k`-th `kzalloc` succeeds (the two streams'
and, between them, that of the private data). `diskstream_new` writes to the stream without a
check. -/
def fat16Probe (kzallocOk : Nat → Bool) (disk : Disk) : Except Fault (Except Int FatPrivate) := do
  if !kzallocOk 0 then throw .nullDeref
  let ((res, bytes), _) ← diskstreamRead FAT_HEADER_SIZE ⟨disk, 0, []⟩
  let header := FatHeader.ofBytes bytes
  if res < 0 then return .error (- EIO)
  if header.signature ≠ FAT16_SIGNATURE then return .error (-EMEDIUMTYPE)
  if strncmp header.systemIdString FAT16_SYSTEM_ID FAT16_SYSTEM_ID_LEN ≠ 0 then
    return .error (-EMEDIUMTYPE)
  if !kzallocOk 1 then return .error (-ENOMEM)
  if header.bytesPerSector = 0 then throw .divideByZero
  if !kzallocOk 2 then throw .nullDeref
  return .ok (.ofHeader header)

/-- What `__fat16_open` makes of an item, its `kzalloc` succeeding. -/
def __fat16Open (p : FatPrivate) (item : FatItem) : FatDescriptor :=
  let d := __fat16ResetCursors
    { item := item, eof := false, pos := 0, relativePos := 0, currentClusterFirstSector := 0
      error := 0 }
  let type : FatEntryType :=
    if fat16ItemIsRootDir p item then .rootDirectory
    else if item.entry.attributes &&& FAT16_FILE_SUBDIRECTORY ≠ 0 then .directory
    else .file
  { d with item := { d.item with type := type } }

end AvocadOS
