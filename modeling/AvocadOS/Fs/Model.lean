import AvocadOS.Kernel.Paging

/-!
# Files (`path_parser.c`, `file_table.c`, `file.c`, and `fat16.c` as a file system)

The functions of `fat16.c` that allocate, over the kernel's state, and the file layer above them.
There is one disk, and `fat16_operations` is the only registered file system: `fsPrivate` is
`disks[0].fs_private`, and `disks[0].fs_operations` is set exactly if it is. What `fread` and `fstat`
write to the caller's buffer is returned.

The scan of a directory takes fuel, as in `findEntryLoop`.
-/

set_option linter.style.nameCheck false

namespace AvocadOS

/-! ## `sizeof` -/

def pathRootSize : Nat := 8
def pathPartSize : Nat := 8
def fileSize : Nat := 20
def fatItemSize : Nat := 48
def fatDescriptorSize : Nat := 72

/-! ## `path_parser.c` -/

def isDigit (c : Byte) : Bool := 0x30 ≤ c.toNat && c.toNat ≤ 0x39

def pathparserPathIsValid (path : List Byte) : Bool :=
  3 ≤ strnlen path MAX_PATH_LEN && isDigit (charAt path 0) && charAt path 1 == 0x3A &&
    charAt path 2 == 0x2F

def pathparserPathGetDrive (path : List Byte) : Int := (charAt path 0).toNat - 0x30

/-- The parts that the loop of `pathparser_path_parse` finds from `path_ptr` on: up to a slash or to
the end of the path, and none behind an empty one. -/
def pathParts : Nat → List Byte → List (List Byte)
  | 0, _ => []
  | fuel + 1, rest =>
    let part := rest.takeWhile (· ≠ 0x2F)
    if part.length = 0 then []
    else if part.length = rest.length then [part]
    else part :: pathParts fuel (rest.drop (part.length + 1))

/-- The parts of a valid path. -/
def partsOf (path : List Byte) : List (List Byte) :=
  let len := strnlen path MAX_PATH_LEN
  pathParts len ((path.take len).drop 3)

/-- `*current_segment = segment`: the first part, or the next one of the part `previous`. -/
def setSegment (root : Word) (previous : Option Word) (segment : Word) : K Unit :=
  match previous with
  | none => roots.modify root fun r => { r with first := segment }
  | some part => parts.modify part fun p => { p with next := segment }

/-- The parts, one after the other. The results of both `kzalloc`s are used without a check. -/
def pathparserAppend (root : Word) : Option Word → List (List Byte) → K Unit
  | _, [] => pure ()
  | previous, name :: names => do
    let segment ← parts.alloc pathPartSize ⟨0, 0⟩
    setSegment root previous segment
    let part ← strings.alloc (name.length + 1) []
    parts.modify segment fun p => { p with part := part }
    strings.modify part fun _ => name
    pathparserAppend root (some segment) names

/-- The loop of `pathparse_path_free`. -/
def pathparseFreeParts : Nat → Word → K Unit
  | 0, _ => fun _ => .error .hang
  | fuel + 1, ptr =>
    if ptr = 0 then pure ()
    else do
      let p ← parts.load ptr
      if p.part ≠ 0 then kfree p.part
      kfree ptr
      pathparseFreeParts fuel p.next

def pathparsePathFree (path : Word) : K Unit := do
  let root ← roots.load path
  pathparseFreeParts MAX_PATH_LEN root.first
  kfree path

def pathparserPathParse (path : List Byte) : K Word :=
  if pathparserPathIsValid path then do
    let root ← roots.alloc pathRootSize ⟨0, 0⟩
    if root = 0 then pure 0
    else
      roots.modify root fun r => { r with driveNumber := pathparserPathGetDrive path }
      if pathparserPathGetDrive path < 0 then
        pathparsePathFree root
        pure 0
      else
        pathparserAppend root none (partsOf path)
        pure root
  else pure 0

/-! ## `file_table.c` -/

/-- The first of `n` slots from slot `i` on that is free. -/
def findFreeSlot (table : Nat → Word) : Nat → Nat → Option Nat
  | 0, _ => none
  | n + 1, i => if table i = 0 then some i else findFreeSlot table n (i + 1)

def fileTableFindFreeSlot : K Int := do
  match findFreeSlot (← get).fileTable MAX_OPEN_FILES 0 with
  | some i => pure i
  | none => pure (-EMFILE)

/-- `file_table.table[index] = descriptor`. -/
def setFileTable (index : Nat) (descriptor : Word) : K Unit :=
  assign fun s => { s with fileTable := Function.update s.fileTable index descriptor }

/-- `file_table.table[index]`. -/
def getFileTable (index : Int) : K Word := do
  if 0 ≤ index ∧ index < MAX_OPEN_FILES then pure ((← get).fileTable index.toNat)
  else fun _ => .error .outOfBounds

def fileTableOpenFile (descriptor : Word) : K Int := do
  let index ← fileTableFindFreeSlot
  if index < 0 then pure index
  else
    files.modify descriptor fun f => { f with fileno := index }
    setFileTable index.toNat descriptor
    pure index

def fileTableCloseFile (descriptor : Word) : K Int := do
  let f ← files.load descriptor
  if f.fileno < 0 ∨ MAX_OPEN_FILES ≤ f.fileno then pure (-EBADF)
  else
    setFileTable f.fileno.toNat 0
    files.modify descriptor fun f => { f with fileno := -1 }
    pure 0

/-! ## `fat16.c`, the part that allocates -/

/-- Code that reads the disk through `private->dev`. -/
def onDev {α : Type} (m : DevM α) : K α := fun s =>
  match m s.dev with
  | .error e => .error e
  | .ok (a, dev) => .ok (a, { s with dev := dev })

theorem onDev_eq {α : Type} {m : DevM α} {s : Kernel} {a : α} {dev : DiskStream}
    (h : m s.dev = .ok (a, dev)) : onDev m s = .ok (a, { s with dev := dev }) := by
  simp only [onDev, h]

/-- `disk->fs_private`. -/
def fsPrivate : K FatPrivate := do
  match (← get).fsPrivate with
  | none => fun _ => .error .nullDeref
  | some p => pure p

/-- The zeroed memory of an item, and of a descriptor. -/
def FatItem.zero : FatItem := ⟨.directory, .zero, 0, 0, 0⟩
def FatDescriptor.zero : FatDescriptor := ⟨.zero, false, 0, 0, 0, 0⟩

/-- `__fat16_open`. -/
def fat16OpenItem (item : Word) : K Word := do
  let descriptor ← descriptors.alloc fatDescriptorSize .zero
  if descriptor = 0 then pure 0
  else
    let x ← items.load item
    let p ← fsPrivate
    descriptors.modify descriptor fun _ => __fat16Open p x
    pure descriptor

/-- `fat16_split_entry_name`: the name and the extension, padded with spaces. The copies have no
bound but the length of the name; one that does not fit its array overwrites the stack. -/
def fat16SplitEntryName (name : List Byte) : K (List Byte × List Byte) := do
  let len := strnlen name 12
  let point := (name.take len).findIdx (· = 0x2E)
  let copy (src : List Byte) (n : Nat) : List Byte := src ++ List.replicate (n - src.length) 0x20
  let filename := name.take point
  let extension := (name.take len).drop (point + 1)
  if filename.length ≤ 8 ∧ extension.length ≤ 3 then pure (copy filename 8, copy extension 3)
  else fun _ => .error .outOfBounds

/-- `fat16_find_entry_in_dir`, on a descriptor of the heap. -/
def fat16FindEntry (fuel : Nat) (descriptor : Word) (filename extension : List Byte) : K Word := do
  let p ← fsPrivate
  let d ← descriptors.load descriptor
  if d.item.type ≠ .directory ∧ d.item.type ≠ .rootDirectory then pure 0
  else
    let (d, found) ← onDev (findEntryLoop p (padded filename 8) (padded extension 3) fuel
      (__fat16ResetCursors d) .zero 0)
    match found with
    | none =>
      descriptors.modify descriptor fun _ => __fat16ResetCursors d
      pure 0
    | some (entry, dirPos) =>
      let item ← items.alloc fatItemSize .zero
      if item = 0 then
        descriptors.modify descriptor fun _ => d
        pure 0
      else
        items.modify item fun _ => .ofEntry p d.item entry dirPos
        descriptors.modify descriptor fun _ => __fat16ResetCursors d
        pure item

/-- The loop of `traverse_path`. -/
def traverseParts (fuel : Nat) : Nat → Word → Word → K Word
  | 0, _, _ => fun _ => .error .hang
  | n + 1, item, path =>
    if path = 0 then pure item
    else do
      let folder ← fat16OpenItem item
      kfree item
      if folder = 0 then pure 0
      else
        let name ← strings.load (← parts.load path).part
        let (filename, extension) ← fat16SplitEntryName name
        let item ← fat16FindEntry fuel folder filename extension
        kfree folder
        if item = 0 then pure 0
        else traverseParts fuel n item (← parts.load path).next

/-- `traverse_path`. The first `kzalloc` is used without a check. -/
def traversePath (fuel : Nat) (path : Word) : K Word := do
  let p ← fsPrivate
  let item ← items.alloc fatItemSize .zero
  items.modify item fun _ => p.rootDirectory
  traverseParts fuel MAX_PATH_LEN item path

def fat16Open (fuel : Nat) (path : Word) : K Word := do
  let item ← traversePath fuel path
  if item = 0 then pure 0
  else
    let descriptor ← fat16OpenItem item
    kfree item
    pure descriptor

def fat16Close (priv : Word) : K Int := do
  kfree priv
  pure 0

/-- `fat16_read`, on a descriptor of the heap. -/
def fat16ReadPriv (priv : Word) (size nmemb : Nat) : K (Nat × List Byte) := do
  let p ← fsPrivate
  let d ← descriptors.load priv
  let (d, n, out) ← onDev (fat16Read p d size nmemb)
  descriptors.modify priv fun _ => d
  pure (n, out)

/-- `fat16_stat`: the returned value and `st_size`. -/
def fat16Stat (priv : Word) : K (Int × Nat) := do
  let d ← descriptors.load priv
  pure (0, d.item.entry.sizeBytes)

/-! ## `file.c` -/

inductive SeekOperation where
  | set
  | cur
  | endOf
  deriving DecidableEq

/-- The entries of `struct filesystem_operations_t` that `file.c` calls. -/
structure FilesystemOperations where
  openFile : Nat → Word → K Word
  close : Word → K Int
  read : Word → Nat → Nat → K (Nat × List Byte)
  seek : Option (Word → Int → SeekOperation → K Int)
  stat : Word → K (Int × Nat)

/-- `fat16_operations`. The entry for `fat16_seek` is commented out. -/
def fat16Operations : FilesystemOperations where
  openFile := fat16Open
  close := fat16Close
  read := fat16ReadPriv
  seek := none
  stat := fat16Stat

/-- A call through an entry of the table, which may be NULL. -/
def callEntry {α : Type} (entry : Option α) : K α :=
  match entry with
  | none => fun _ => .error .nullDeref
  | some f => pure f

/-- `descriptor->disk->fs_operations`; `none` is NULL. -/
def fsOperations (disk : Word) : K (Option FilesystemOperations) := do
  if disk = 0 then fun _ => .error .nullDeref
  else pure ((← get).fsPrivate.map fun _ => fat16Operations)

/-- `file_mode_from_string(str) != OPEN_MODE_INVALID`. -/
def fileModeIsValid (mode : List Byte) : Bool :=
  strncmp mode (ascii "w") 1 = 0 || strncmp mode (ascii "r") 1 = 0 || strncmp mode (ascii "a") 1 = 0

/-- `disk_get`: the returned value and the disk. -/
def diskGet (index : Int) : K (Int × Word) := do
  if index ≠ 0 then pure (-ENOMEDIUM, 0) else pure (0, (← get).image.disk)

/-- `fopen` from `disk_get` on, up to `out`. -/
def fopenOn (fuel : Nat) (path descriptor : Word) : K Int := do
  let root ← roots.load path
  let (res, disk) ← diskGet root.driveNumber
  files.modify descriptor fun f => { f with disk := disk }
  if res ≠ 0 then pure (- EIO)
  else
    match ← fsOperations (← files.load descriptor).disk with
    | none => pure (- EIO)
    | some ops =>
      files.modify descriptor fun f => { f with path := path }
      let priv ← ops.openFile fuel root.first
      files.modify descriptor fun f => { f with privateData := priv }
      if priv = 0 then pure (- EIO)
      else fileTableOpenFile descriptor

/-- `fopen` from `out` on. -/
def fopenOut (path descriptor : Word) (res : Int) : K Word := do
  if res < 0 then
    pathparsePathFree path
    if descriptor ≠ 0 then
      let f ← files.load descriptor
      match ← fsOperations f.disk with
      | none => pure ()
      | some ops => if f.privateData ≠ 0 then let _ ← ops.close f.privateData
      kfree descriptor
    pure 0
  else pure descriptor

def fopen (fuel : Nat) (filename mode : List Byte) : K Word :=
  if fileModeIsValid mode then do
    let path ← pathparserPathParse filename
    if path = 0 then pure 0
    else
      let root ← roots.load path
      if root.first = 0 then
        pathparsePathFree path
        pure 0
      else
        let descriptor ← files.alloc fileSize ⟨0, 0, 0, 0⟩
        if descriptor = 0 then fopenOut path 0 (-ENOMEM)
        else
          let res ← fopenOn fuel path descriptor
          fopenOut path descriptor res
  else pure 0

/-- The operations of the file system of an open file. -/
def operationsOf (f : File) : K FilesystemOperations := do callEntry (← fsOperations f.disk)

def fclose (stream : Word) : K Int := do
  let descriptor ← getFileTable (← files.load stream).fileno
  if descriptor = 0 then pure (-EBADF)
  else
    let res ← fileTableCloseFile descriptor
    if res ≠ 0 then pure res
    else
      let f ← files.load descriptor
      let ops ← operationsOf f
      let res ← ops.close f.privateData
      if res ≠ 0 then pure res
      else
        pathparsePathFree f.path
        kfree descriptor
        pure 0

/-- `fread`: the returned value and the bytes written to `ptr`. -/
def fread (size nmemb : Nat) (stream : Word) : K (Nat × List Byte) := do
  let descriptor ← getFileTable (← files.load stream).fileno
  if descriptor = 0 then pure (0, [])
  else
    let f ← files.load descriptor
    let ops ← operationsOf f
    ops.read f.privateData size nmemb

def fseek (stream : Word) (offset : Int) (whence : SeekOperation) : K Int := do
  let descriptor ← getFileTable (← files.load stream).fileno
  if descriptor = 0 then pure (-EBADF)
  else
    let f ← files.load descriptor
    let ops ← operationsOf f
    let seek ← callEntry ops.seek
    seek f.privateData offset whence

/-- `fstat`: the returned value and `st_size`. -/
def fstat (fd : Int) : K (Int × Nat) := do
  let descriptor ← getFileTable fd
  if descriptor = 0 then pure (-EBADF, 0)
  else
    let f ← files.load descriptor
    let ops ← operationsOf f
    ops.stat f.privateData

end AvocadOS
