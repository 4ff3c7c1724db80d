import AvocadOS.Fs.Model
import AvocadOS.Fat16.Read

/-!
# Reading and seeking in an open file

`OpenFile f s stream pos`: the stream is in its slot of the file table and its descriptor is one of
the regular file `f`, at `pos`. `runCalls` runs a sequence of `fread` and `fseek` calls on it;
`randomSpec` is what it is for: each seek moves the position, and each read delivers the bytes that
follow.

* `OpenFile.fread`: one `fread`;
* `OpenFile.fseek`: every `fseek` calls through the NULL entry of `fat16_operations`;
* `randomAccess_iff`: a sequence does what it is for, exactly if it has no `fseek`.
-/

namespace AvocadOS

/-- A call on an open file. -/
inductive FileCall where
  | read (size nmemb : Nat)
  | seek (offset : Int) (whence : SeekOperation)

/-- The calls one after the other, with what the reads returned and wrote. -/
def runCalls (stream : Word) : List FileCall → K (List (Nat × List Byte))
  | [] => pure []
  | .read size nmemb :: calls => do
    let r ← fread size nmemb stream
    let results ← runCalls stream calls
    pure (r :: results)
  | .seek offset whence :: calls => do
    let _ ← fseek stream offset whence
    runCalls stream calls

/-! ## What the calls are for -/

/-- The position that a seek denotes. -/
def SeekOperation.target (size pos : Nat) (offset : Int) : SeekOperation → Int
  | .set => offset
  | .cur => pos + offset
  | .endOf => size + offset

/-- Every seek denotes a position in the file. -/
def SeeksInside (content : List Byte) : List FileCall → Nat → Prop
  | [], _ => True
  | .read size nmemb :: calls, pos =>
    SeeksInside content calls (pos + min (size * nmemb) (content.length - pos))
  | .seek offset whence :: calls, pos =>
    0 ≤ whence.target content.length pos offset ∧
      whence.target content.length pos offset ≤ content.length ∧
      SeeksInside content calls (whence.target content.length pos offset).toNat

/-- What the reads have to return and to write. -/
def randomSpec (content : List Byte) : List FileCall → Nat → List (Nat × List Byte)
  | [], _ => []
  | .read size nmemb :: calls, pos =>
    let n := min (size * nmemb) (content.length - pos)
    (n, (content.drop pos).take n) :: randomSpec content calls (pos + n)
  | .seek offset whence :: calls, pos =>
    randomSpec content calls (whence.target content.length pos offset).toNat

/-- The calls return, and the reads deliver the bytes at the positions that the calls denote. -/
def RandomAccess (s : Kernel) (stream : Word) (content : List Byte) (pos : Nat)
    (calls : List FileCall) : Prop :=
  ∃ t, runCalls stream calls s = .ok (randomSpec content calls pos, t)

/-! ## Open files -/

section

variable {disk : Disk} {p : FatPrivate}

/-- The stream is an open one of the file, at `pos`. -/
structure OpenFile (f : RegularFile disk p) (s : Kernel) (stream : Word) (pos : Nat) : Prop where
  mounted : s.fsPrivate = some p
  disk_eq : s.dev.disk = disk
  ne_null : stream ≠ 0
  file : ∃ x : File, s.files stream = some x ∧ x.disk ≠ 0 ∧ 0 ≤ x.fileno ∧
    x.fileno < MAX_OPEN_FILES ∧ s.fileTable x.fileno.toNat = stream ∧ x.privateData ≠ 0 ∧
    ∃ d, s.descriptors x.privateData = some d ∧ f.OpenAt d pos

namespace OpenFile

variable {f : RegularFile disk p} {s : Kernel} {stream : Word} {pos : Nat}

/-- How `fread` and `fseek` get to the operations of the file. -/
theorem lookup {α : Type} (h : OpenFile f s stream pos) (null : α)
    (k : File → FilesystemOperations → K α) :
    ∃ x : File, s.files stream = some x ∧ (do
      let descriptor ← getFileTable (← files.load stream).fileno
      if descriptor = 0 then pure null
      else
        let f ← files.load descriptor
        let ops ← operationsOf f
        k f ops) s = k x fat16Operations s := by
  obtain ⟨x, hx, hdisk, h₀, hlt, hslot, -⟩ := h.file
  refine ⟨x, hx, ?_⟩
  have hload : files.load stream s = .ok (x, s) := Store.load_eq h.ne_null hx
  have htable : getFileTable x.fileno s = .ok (stream, s) := by
    simp only [getFileTable, h₀, hlt, and_self, if_true, bind_get_eq, hslot]
    rfl
  have hops : operationsOf x s = .ok (fat16Operations, s) := by
    simp only [operationsOf, fsOperations, if_neg hdisk, bind_assoc, bind_get_eq, h.mounted]
    rfl
  rw [bind_eq hload, bind_eq htable, if_neg h.ne_null, bind_eq hload, bind_eq hops]

/-- One `fread`: it delivers the bytes at the position, and writes only to its descriptor and to the
stream of the disk. -/
theorem fread_eq (hg : p.Geometry) (hs : p.header.sectorsPerCluster ≠ 0)
    (h : OpenFile f s stream pos) {size nmemb : Nat} (hlen : size * nmemb < 2 ^ 32) :
    let n := min (size * nmemb) (f.content.length - pos)
    ∃ x d dev, s.files stream = some x ∧ f.OpenAt d (pos + n) ∧ dev.disk = disk ∧
      AvocadOS.fread size nmemb stream s = .ok ((n, (f.content.drop pos).take n), { s with
        dev := dev
        descriptors := Function.update s.descriptors x.privateData (some d) }) := by
  obtain ⟨x, hx, hlookup⟩ := h.lookup (0, []) fun x ops => ops.read x.privateData size nmemb
  obtain ⟨y, hy, hdisk, h₀, hlt, hslot, hpriv, d, hd, hat⟩ := h.file
  obtain rfl : x = y := Option.some.inj (hx.symm.trans hy)
  obtain ⟨⟨d', n, out⟩, dev, hread, hdev, hn, hout, hat'⟩ :=
    f.fat16_read hg (.inl hs) hat hlen s.dev h.disk_eq
  rw [← f.content_length] at hn
  subst hn hout
  refine ⟨x, d', dev, hx, hat', hdev, hlookup.trans ?_⟩
  have hprivate : fsPrivate s = .ok (p, s) := by
    simp only [fsPrivate, bind_get_eq, h.mounted]
    rfl
  have hload : descriptors.load x.privateData s = .ok (d, s) := Store.load_eq hpriv hd
  have hdevice := onDev_eq hread
  simp only [fat16Operations, fat16ReadPriv]
  rw [bind_eq hprivate, bind_eq hload, bind_eq hdevice, bind_eq (Store.modify_eq hpriv hd)]
  rfl

/-- `fstat` gives the size of the file. -/
theorem fstat (h : OpenFile f s stream pos) :
    (do AvocadOS.fstat (← files.load stream).fileno) s = .ok ((0, f.content.length), s) := by
  obtain ⟨x, hx, hlookup⟩ := h.lookup (-EBADF, 0) fun x ops => ops.stat x.privateData
  obtain ⟨y, hy, -, -, -, -, hpriv, d, hd, hat⟩ := h.file
  obtain rfl : x = y := Option.some.inj (hx.symm.trans hy)
  refine hlookup.trans ((bind_eq (Store.load_eq hpriv hd)).trans ?_)
  rw [hat.item, RegularFile.item_entry, RegularFile.content_length]
  rfl

/-- One `fread`: it delivers the bytes at the position, and moves it. -/
theorem fread (hg : p.Geometry) (hs : p.header.sectorsPerCluster ≠ 0) (h : OpenFile f s stream pos)
    {size nmemb : Nat} (hlen : size * nmemb < 2 ^ 32) :
    let n := min (size * nmemb) (f.content.length - pos)
    ∃ t, AvocadOS.fread size nmemb stream s = .ok ((n, (f.content.drop pos).take n), t) ∧
      OpenFile f t stream (pos + n) := by
  obtain ⟨x, d, dev, hx, hat, hdev, hread⟩ := h.fread_eq hg hs hlen
  obtain ⟨y, hy, hdisk, h₀, hlt, hslot, hpriv, -⟩ := h.file
  obtain rfl : x = y := Option.some.inj (hx.symm.trans hy)
  refine ⟨_, hread, h.mounted, hdev, h.ne_null, x, hx, hdisk, h₀, hlt, hslot, hpriv, d, ?_, hat⟩
  exact Function.update_self _ _ _

/-- Every `fseek` calls NULL. -/
theorem fseek (h : OpenFile f s stream pos) (offset : Int) (whence : SeekOperation) :
    AvocadOS.fseek stream offset whence s = .error .nullDeref := by
  obtain ⟨x, -, hlookup⟩ := h.lookup (-EBADF) fun x ops => do
    let seek ← callEntry ops.seek
    seek x.privateData offset whence
  exact hlookup

variable {calls : List FileCall}

/-- Without a seek, the calls do what they are for. -/
theorem runCalls_reads (hg : p.Geometry) (hs : p.header.sectorsPerCluster ≠ 0)
    (h : OpenFile f s stream pos)
    (hlen : ∀ size nmemb, .read size nmemb ∈ calls → size * nmemb < 2 ^ 32)
    (hreads : ∀ offset whence, .seek offset whence ∉ calls) :
    RandomAccess s stream f.content pos calls := by
  induction calls generalizing s pos with
  | nil => exact ⟨s, rfl⟩
  | cons call calls ih =>
    cases call with
    | seek offset whence => exact absurd List.mem_cons_self (hreads offset whence)
    | read size nmemb =>
      obtain ⟨t, hread, h'⟩ := h.fread hg hs (hlen size nmemb List.mem_cons_self)
      obtain ⟨u, hrest⟩ := ih h' (fun _ _ hmem => hlen _ _ (List.mem_cons_of_mem _ hmem))
        fun _ _ hmem => hreads _ _ (List.mem_cons_of_mem _ hmem)
      exact ⟨u, (bind_eq hread).trans (bind_eq hrest)⟩

/-- With one, they do not return. -/
theorem runCalls_seek (hg : p.Geometry) (hs : p.header.sectorsPerCluster ≠ 0)
    (h : OpenFile f s stream pos)
    (hlen : ∀ size nmemb, .read size nmemb ∈ calls → size * nmemb < 2 ^ 32) {offset : Int}
    {whence : SeekOperation} (hmem : .seek offset whence ∈ calls) :
    runCalls stream calls s = .error .nullDeref := by
  induction calls generalizing s pos with
  | nil => cases hmem
  | cons call calls ih =>
    cases call with
    | seek offset' whence' =>
      simp only [runCalls, Bind.bind, StateT.bind, Except.bind, h.fseek]
    | read size nmemb =>
      obtain ⟨t, hread, h'⟩ := h.fread hg hs (hlen size nmemb List.mem_cons_self)
      have hrest := ih h' (fun _ _ hm => hlen _ _ (List.mem_cons_of_mem _ hm))
        ((List.mem_cons.mp hmem).resolve_left (by simp))
      rw [runCalls, bind_eq hread]
      simp only [Bind.bind, StateT.bind, Except.bind, hrest]

end OpenFile

/-- On an accepted volume with nonzero geometry, reads and seeks of an open regular file do what
they are for, exactly if there is no seek among them. -/
theorem randomAccess_iff {ok : Nat → Bool} (hp : fat16Probe ok disk = .ok (.ok p))
    (hs : p.header.sectorsPerCluster ≠ 0) {f : RegularFile disk p} {s : Kernel} {stream : Word}
    {pos : Nat} (h : OpenFile f s stream pos) (calls : List FileCall)
    (hlen : ∀ size nmemb, .read size nmemb ∈ calls → size * nmemb < 2 ^ 32) :
    RandomAccess s stream f.content pos calls ↔
      ∀ offset whence, .seek offset whence ∉ calls := by
  have hg := fat16Probe_geometry hp
  refine ⟨fun ⟨t, hrun⟩ offset whence hmem => ?_, h.runCalls_reads hg hs hlen⟩
  rw [h.runCalls_seek hg hs hlen hmem] at hrun
  cases hrun

end

/-! The file of three bytes on the volume of `tinyDisk`, opened by hand: the stream is in slot 0. -/

def tinyFile : RegularFile (tinyDisk 1) (tinyVolume 1) :=
  .ofCluster (tinyVolume 1).rootDirectory (tinyEntry 3) 1 2 (by decide) (by decide) (by decide)
    (by decide) (by decide) (by decide) (by decide) (by decide)

def tinyKernel : Kernel :=
  { Kernel.blank ⟨0, 0, 0, 0xC0130000, 0, 0⟩ (fun _ => 0) (fun _ => none) (fun _ => none) with
    fsPrivate := some (tinyVolume 1)
    dev := ⟨tinyDisk 1, 0, []⟩
    files := Function.update (fun _ => none) 0xC0201000 (some ⟨0xC0130000, 0, 0xC0202000, 0⟩)
    descriptors := Function.update (fun _ => none) 0xC0202000
      (some (__fat16Open (tinyVolume 1) tinyFile.item))
    fileTable := Function.update (fun _ => 0) 0 0xC0201000 }

theorem tinyKernel_open : OpenFile tinyFile tinyKernel 0xC0201000 0 where
  mounted := rfl
  disk_eq := rfl
  ne_null := by decide
  file := ⟨⟨0xC0130000, 0, 0xC0202000, 0⟩, by simp [tinyKernel], by decide, by decide, by decide,
    by simp [tinyKernel], by decide, __fat16Open (tinyVolume 1) tinyFile.item,
    by simp [tinyKernel], RegularFile.open_item, rfl, Nat.zero_le _, fun h => by cases h⟩

/-- Two reads, of which the second hits the end of the file. -/
theorem randomAccess_iff_two_reads :
    RandomAccess tinyKernel 0xC0201000 tinyFile.content 0 [.read 1 2, .read 2 1] := by
  refine (randomAccess_iff (fat16Probe_accepts (by decide) (by decide) (by decide)) (by decide)
    tinyKernel_open [.read 1 2, .read 2 1] ?_).mpr ?_
  · intro size nmemb hmem
    simp only [List.mem_cons, FileCall.read.injEq, List.not_mem_nil, or_false] at hmem
    obtain ⟨rfl, rfl⟩ | ⟨rfl, rfl⟩ := hmem <;> decide
  · intro offset whence hmem
    simp at hmem

/-- A seek to the beginning of the file, for a read of it, does not return. -/
theorem seek_calls_null :
    ¬ ∀ (disk : Disk) (p : FatPrivate), fat16Probe (fun _ => true) disk = .ok (.ok p) →
      p.header.sectorsPerCluster ≠ 0 → ∀ (f : RegularFile disk p) (s : Kernel) (stream : Word)
      (pos : Nat), OpenFile f s stream pos → ∀ calls : List FileCall,
        (∀ size nmemb, .read size nmemb ∈ calls → size * nmemb < 2 ^ 32) →
        SeeksInside f.content calls pos → RandomAccess s stream f.content pos calls := by
  intro h
  have hp : fat16Probe (fun _ => true) (tinyDisk 1) = .ok (.ok (tinyVolume 1)) :=
    fat16Probe_accepts (by decide) (by decide) (by decide)
  have hlen : ∀ size nmemb, .read size nmemb ∈ [FileCall.seek 0 .set, .read 1 3] →
      size * nmemb < 2 ^ 32 := by
    intro size nmemb hmem
    obtain ⟨rfl, rfl⟩ : size = 1 ∧ nmemb = 3 := by simpa using hmem
    decide
  obtain ⟨t, hrun⟩ := h _ _ hp (by decide) tinyFile tinyKernel 0xC0201000 0 tinyKernel_open
    [.seek 0 .set, .read 1 3] hlen ⟨Int.le_refl 0, Int.natCast_nonneg _, trivial⟩
  rw [tinyKernel_open.runCalls_seek (fat16Probe_geometry hp) (by decide) hlen
    List.mem_cons_self] at hrun
  cases hrun

end AvocadOS
