import AvocadOS.Fat16.Read

/-!
# Seeking

`fat16_seek` and `fat16_read_file`, which the table of operations leaves out. `runStreamCalls` runs
any interleaving of reads and seeks on descriptors that share one stream; `streamSpec` is what the
calls on one of them are for: a seek moves a 32-bit position, wherever it leads, and a read delivers
what the file has behind it.

* `At.fat16_read`, `At.fat16_read_file`: one read from any position, also behind the end;
* `At.fat16_seek`: a seek makes the descriptor usable again after the end;
* `seek_refines`: every interleaving delivers, on each descriptor, what its own calls are for.
-/

namespace AvocadOS

set_option linter.style.nameCheck false

/-! ## `fat16.c` -/

/-- `fat16_read_file`: the descriptor, the returned `size_t` and the bytes written to `ptr`. -/
def fat16ReadFile (p : FatPrivate) (d : FatDescriptor) (len : Nat) :
    DevM (FatDescriptor × Nat × List Byte) := do
  let (d, res) ← __fat16AdjustCursors p d 0
  if res ≠ 0 then return (d, asSizeT res, [])
  if d.eof then return (d, 0, [])
  if d.item.entry.sizeBytes ≤ d.pos then return ({ d with eof := true }, 0, [])
  let len := min len (d.item.entry.sizeBytes - d.pos)
  let (d, res, out) ← __fat16Read p d len
  if res ≠ 0 then return (d, asSizeT res, out)
  let d := if d.item.entry.sizeBytes ≤ d.pos then { d with eof := true } else d
  return (d, asSizeT res, out)

def SEEK_SET : Int := 0
def SEEK_CUR : Int := 1
def SEEK_END : Int := 2

def __fat16SeekSet (d : FatDescriptor) (pos : Int) : FatDescriptor × Int :=
  ({ d with pos := asSizeT pos, eof := false }, 0)

/-- `fat16_seek`; the sum of a position and an offset is a `uint32_t` passed as an `int32_t`. -/
def fat16Seek (d : FatDescriptor) (offset : Int) (whence : Int) : FatDescriptor × Int :=
  if whence = SEEK_SET then __fat16SeekSet d offset
  else if whence = SEEK_CUR then __fat16SeekSet d (asInt (asSizeT (d.pos + offset)))
  else if whence = SEEK_END then __fat16SeekSet d (asInt d.item.entry.sizeBytes)
  else (d, 1)

/-- A call on a descriptor. -/
inductive StreamCall where
  | read (size nmemb : Nat)
  | readFile (len : Nat)
  | seek (offset whence : Int)

/-- The returned value, as an integer, and the bytes written to the buffer. -/
abbrev StreamResult := Int × List Byte

def StreamCall.run (p : FatPrivate) (d : FatDescriptor) :
    StreamCall → DevM (FatDescriptor × StreamResult)
  | .read size nmemb => do
    let (d, n, out) ← fat16Read p d size nmemb
    pure (d, (n, out))
  | .readFile len => do
    let (d, n, out) ← fat16ReadFile p d len
    pure (d, (n, out))
  | .seek offset whence =>
    let (d, res) := fat16Seek d offset whence
    pure (d, (res, []))

section

variable {ι : Type} [DecidableEq ι]

/-- The calls one after the other, each on the descriptor that it names. -/
def runStreamCalls (p : FatPrivate) :
    List (ι × StreamCall) → (ι → FatDescriptor) → DevM (List StreamResult)
  | [], _ => pure []
  | (i, call) :: calls, ds => do
    let (d, result) ← call.run p (ds i)
    let results ← runStreamCalls p calls (Function.update ds i d)
    pure (result :: results)

/-! ## What the calls are for -/

/-- The position that a seek denotes; `SEEK_END` does not look at the offset. -/
def seekTarget (size pos : Nat) (offset whence : Int) : Option Nat :=
  if whence = SEEK_SET then some (asSizeT offset)
  else if whence = SEEK_CUR then some (asSizeT (pos + offset))
  else if whence = SEEK_END then some size
  else none

/-- One call on a file: the new position and the result. -/
def StreamCall.spec (content : List Byte) (pos : Nat) : StreamCall → Nat × StreamResult
  | .read size nmemb =>
    let n := min (u32 (size * nmemb)) (content.length - pos)
    (pos + n, (n, (content.drop pos).take n))
  | .readFile len =>
    let n := min len (content.length - pos)
    (pos + n, (n, (content.drop pos).take n))
  | .seek offset whence =>
    match seekTarget content.length pos offset whence with
    | some target => (target, (0, []))
    | none => (pos, (1, []))

/-- The results of a sequence of calls on one file. -/
def streamSpec (content : List Byte) : List StreamCall → Nat → List StreamResult
  | [], _ => []
  | call :: calls, pos =>
    (call.spec content pos).2 :: streamSpec content calls (call.spec content pos).1

/-- The calls on one descriptor, in their order. -/
def callsOf (i : ι) (calls : List (ι × StreamCall)) : List StreamCall :=
  (calls.filter fun call => call.1 = i).map (·.2)

/-- The results of the calls on one descriptor. -/
def resultsOf (i : ι) (calls : List (ι × StreamCall)) (results : List StreamResult) :
    List StreamResult :=
  ((calls.zip results).filter fun r => r.1.1 = i).map (·.2)

/-- Every call has its result, and each descriptor gets what its own calls are for. -/
def Serves (files : ι → List Byte) (pos : ι → Nat) (calls : List (ι × StreamCall))
    (results : List StreamResult) : Prop :=
  results.length = calls.length ∧
    ∀ i, resultsOf i calls results = streamSpec (files i) (callsOf i calls) (pos i)

variable {files : ι → List Byte} {pos : ι → Nat}

theorem Serves.nil : Serves files pos [] [] := ⟨rfl, fun _ => rfl⟩

/-- A call on `i` leaves the positions of the other descriptors. -/
theorem Serves.cons {i : ι} {call : StreamCall} {calls : List (ι × StreamCall)}
    {results : List StreamResult}
    (h : Serves files (Function.update pos i (call.spec (files i) (pos i)).1) calls results) :
    Serves files pos ((i, call) :: calls) ((call.spec (files i) (pos i)).2 :: results) := by
  obtain ⟨hlen, hall⟩ := h
  refine ⟨by rw [List.length_cons, List.length_cons, hlen], fun j => ?_⟩
  have hj := hall j
  by_cases hij : i = j
  · subst hij
    rw [Function.update_self] at hj
    simp only [resultsOf, callsOf] at hj
    simp [resultsOf, callsOf, streamSpec, hj]
  · rw [Function.update_of_ne (Ne.symm hij)] at hj
    simp only [resultsOf, callsOf] at hj
    simp [resultsOf, callsOf, hij, hj]

end

/-! ## One call -/

theorem asSizeT_lt (n : Int) : asSizeT n < 2 ^ 32 := by
  unfold asSizeT
  omega

/-- A `size_t` survives the way through an `int`. -/
theorem asSizeT_asInt {n : Nat} (h : n < 2 ^ 32) : asSizeT (asInt n) = n := by
  unfold asSizeT asInt u32
  rw [Nat.mod_eq_of_lt h]
  split <;> omega

namespace RegularFile

variable {disk : Disk} {p : FatPrivate} {f : RegularFile disk p}

/-- A descriptor of the file at any position. `eof` is set at most where nothing is left. -/
structure At (f : RegularFile disk p) (d : FatDescriptor) (pos : Nat) : Prop where
  item : d.item = f.item
  posEq : d.pos = pos
  lt : pos < 2 ^ 32
  eof : d.eof = true → f.entry.sizeBytes ≤ pos

theorem OpenAt.toAt {d : FatDescriptor} {pos : Nat} (h : f.OpenAt d pos) : f.At d pos := by
  have hsize := f.size_lt
  have hinside := h.inside
  exact ⟨h.item, h.posEq, by omega, fun he => Nat.le_of_eq (h.eof he).symm⟩

namespace At

variable {d : FatDescriptor} {pos : Nat}

/-- The end of a file may be noted, or not. -/
theorem note_eof (h : f.At d pos) :
    f.At (if d.item.entry.sizeBytes ≤ d.pos then { d with eof := true } else d) pos := by
  split
  · rename_i hle
    rw [h.item, item_entry, h.posEq] at hle
    exact ⟨h.item, h.posEq, h.lt, fun _ => hle⟩
  · exact h

/-- How both functions begin: at the end they return 0; before it the cursors are those of the
position. -/
theorem begin (hg : p.Geometry) (hs : p.header.sectorsPerCluster ≠ 0) (h : f.At d pos) :
    Gives disk (__fat16AdjustCursors p d 0) fun (d', res) =>
      res = 0 ∧ f.At d' pos ∧ (d'.eof = false → pos < f.entry.sizeBytes → f.Ready d') := by
  have hpos : asSizeT (d.pos + 0) = pos := by
    rw [Int.add_zero, h.posEq, asSizeT_natCast h.lt]
  rcases clusters_ne_nil_or f with ⟨-, hlow, hzero⟩ | ⟨hne, -⟩
  · simp only [__fat16AdjustCursors, h.item, not_root, __fat16AdjustCursorsNonRoot, item_entry,
      hlow, Bool.false_eq_true, if_false, if_true]
    exact .pure ⟨rfl, ⟨rfl, hpos, h.lt, fun _ => by omega⟩, by simp⟩
  · refine (adjust_cursors hg hs h.item hne).mono ?_
    rintro ⟨d', res⟩ ⟨rfl, hpos', hr, heof⟩
    rw [hpos] at hpos'
    refine ⟨rfl, ⟨hr.item, hpos', h.lt, fun he => ?_⟩, fun _ _ => hr⟩
    rcases heof.mp he with he | he
    · exact h.eof he
    -- the chain ends only behind the last byte
    · rw [List.getElem?_eq_none_iff, Nat.le_div_iff_mul_le (hg.bytesPerCluster_pos hs)] at he
      have := f.covers
      omega

/-- `__fat16_read` before the end. -/
theorem read_rest {len : Nat} (hg : p.Geometry) (hs : p.header.sectorsPerCluster ≠ 0)
    (h : f.At d pos) (hr : f.Ready d) (heof : d.eof = false)
    (hend : pos + len ≤ f.entry.sizeBytes) :
    Gives disk (__fat16Read p d len) fun (d', res, out) =>
      f.At d' (pos + len) ∧ res = len ∧ out = (f.content.drop pos).take len := by
  refine (@read_loop disk p f pos len hg hs hend len d [] (Nat.zero_le _) (Nat.le_refl _) hr
    h.posEq (by rw [heof]; simp) (by simp)).mono ?_
  rintro ⟨d', res, out⟩ ⟨hat, hres, rfl⟩
  refine ⟨hat.toAt, hres, ?_⟩
  rw [content, List.drop_take, List.take_take, Nat.min_eq_left (by omega)]

/-- `fat16_read` from any position. -/
theorem fat16_read {size nmemb : Nat} (hg : p.Geometry) (hs : p.header.sectorsPerCluster ≠ 0)
    (h : f.At d pos) :
    Gives disk (fat16Read p d size nmemb) fun (d', n, out) =>
      n = min (u32 (size * nmemb)) (f.content.length - pos) ∧
        out = (f.content.drop pos).take n ∧ f.At d' (pos + n) := by
  have hsize := f.size_lt
  rw [content_length]
  refine (h.begin hg hs).bind ?_
  rintro ⟨d₁, res⟩ ⟨rfl, hat, hr⟩
  simp only [ne_eq, not_true_eq_false, if_false, hat.item, item_entry, hat.posEq]
  by_cases hle : f.entry.sizeBytes ≤ pos
  -- nothing is left
  · have hmin : min (u32 (size * nmemb)) (f.entry.sizeBytes - pos) = 0 := by omega
    simp only [hle, if_true]
    split
    · exact .pure ⟨hmin.symm, by simp, hat⟩
    · exact .pure ⟨hmin.symm, by simp, rfl, rfl, hat.lt, fun _ => hle⟩
  · have heof : d₁.eof = false := Bool.eq_false_iff.mpr fun he => hle (hat.eof he)
    simp only [heof, Bool.false_eq_true, if_false, hle]
    obtain ⟨n, hn⟩ : ∃ n, n = min (u32 (size * nmemb)) (f.entry.sizeBytes - pos) := ⟨_, rfl⟩
    rw [← hn]
    refine (hat.read_rest hg hs (hr heof (by omega)) heof (by omega)).bind ?_
    rintro ⟨d₂, res, out⟩ ⟨hat₂, rfl, rfl⟩
    rw [asSizeT_natCast (by omega)]
    exact .pure ⟨rfl, rfl, hat₂.note_eof⟩

/-- `fat16_read_file` from any position. It returns before it looks for the end if it has read
something; the next call finds the end. -/
theorem fat16_read_file {len : Nat} (hg : p.Geometry) (hs : p.header.sectorsPerCluster ≠ 0)
    (h : f.At d pos) :
    Gives disk (fat16ReadFile p d len) fun (d', n, out) =>
      n = min len (f.content.length - pos) ∧ out = (f.content.drop pos).take n ∧
        f.At d' (pos + n) := by
  have hsize := f.size_lt
  rw [content_length]
  refine (h.begin hg hs).bind ?_
  rintro ⟨d₁, res⟩ ⟨rfl, hat, hr⟩
  simp only [ne_eq, not_true_eq_false, if_false, hat.item, item_entry, hat.posEq]
  by_cases hle : f.entry.sizeBytes ≤ pos
  · have hmin : min len (f.entry.sizeBytes - pos) = 0 := by omega
    simp only [hle, if_true]
    split
    · exact .pure ⟨hmin.symm, by simp, hat⟩
    · exact .pure ⟨hmin.symm, by simp, rfl, rfl, hat.lt, fun _ => hle⟩
  · have heof : d₁.eof = false := Bool.eq_false_iff.mpr fun he => hle (hat.eof he)
    simp only [heof, Bool.false_eq_true, if_false, hle]
    obtain ⟨n, hn⟩ : ∃ n, n = min len (f.entry.sizeBytes - pos) := ⟨_, rfl⟩
    rw [← hn]
    refine (hat.read_rest hg hs (hr heof (by omega)) heof (by omega)).bind ?_
    rintro ⟨d₂, res, out⟩ ⟨hat₂, rfl, rfl⟩
    rw [asSizeT_natCast (by omega)]
    dsimp only
    split
    · exact .pure ⟨rfl, rfl, hat₂⟩
    · exact .pure ⟨rfl, rfl, hat₂.note_eof⟩

/-- `fat16_seek` with one of the three operations. -/
theorem fat16_seek {offset whence : Int} {target : Nat} (h : f.At d pos)
    (ht : seekTarget f.content.length pos offset whence = some target) :
    (fat16Seek d offset whence).2 = 0 ∧ f.At (fat16Seek d offset whence).1 target := by
  have hsize := f.size_lt
  rw [content_length] at ht
  -- all of them end in `__fat16_seek_set`
  have hset : ∀ x : Int, asSizeT x = target →
      (__fat16SeekSet d x).2 = 0 ∧ f.At (__fat16SeekSet d x).1 target := by
    rintro x rfl
    exact ⟨rfl, h.item, rfl, asSizeT_lt x, fun he => by cases he⟩
  simp only [seekTarget] at ht
  unfold fat16Seek
  split_ifs at ht ⊢ with h₁ h₂ h₃
  · exact hset _ (Option.some.inj ht)
  · refine hset _ ?_
    rw [h.posEq, asSizeT_asInt (asSizeT_lt _)]
    exact Option.some.inj ht
  · refine hset _ ?_
    rw [h.item, item_entry, asSizeT_asInt (by omega)]
    exact Option.some.inj ht

/-- Any other operation changes nothing. -/
theorem fat16_seek_invalid {offset whence : Int} {size : Nat}
    (hnone : seekTarget size pos offset whence = none) : fat16Seek d offset whence = (d, 1) := by
  simp only [seekTarget] at hnone
  unfold fat16Seek
  split_ifs at hnone ⊢
  rfl

/-- One call is the call that the specification has. -/
theorem call (hg : p.Geometry) (hs : p.header.sectorsPerCluster ≠ 0) (h : f.At d pos)
    (call : StreamCall) :
    Gives disk (call.run p d) fun (d', result) =>
      f.At d' (call.spec f.content pos).1 ∧ result = (call.spec f.content pos).2 := by
  cases call with
  | read size nmemb =>
    refine (h.fat16_read hg hs).bind ?_
    rintro ⟨d', n, out⟩ ⟨rfl, rfl, hat⟩
    exact .pure ⟨hat, rfl⟩
  | readFile len =>
    refine (h.fat16_read_file hg hs).bind ?_
    rintro ⟨d', n, out⟩ ⟨rfl, rfl, hat⟩
    exact .pure ⟨hat, rfl⟩
  | seek offset whence =>
    simp only [StreamCall.run, StreamCall.spec]
    cases ht : seekTarget f.content.length pos offset whence with
    | some target =>
      obtain ⟨hres, hat⟩ := h.fat16_seek ht
      exact .pure ⟨hat, by rw [hres]⟩
    | none =>
      rw [fat16_seek_invalid ht]
      exact .pure ⟨h, rfl⟩

end At

end RegularFile

/-! ## Interleavings -/

section Streams

variable {ι : Type} [DecidableEq ι] {disk : Disk} {p : FatPrivate}

theorem runStreamCalls_spec (hg : p.Geometry) (hs : p.header.sectorsPerCluster ≠ 0)
    (files : ι → RegularFile disk p) (calls : List (ι × StreamCall)) {ds : ι → FatDescriptor}
    {pos : ι → Nat} (hds : ∀ i, (files i).At (ds i) (pos i)) :
    Gives disk (runStreamCalls p calls ds) (Serves (fun i => (files i).content) pos calls) := by
  induction calls generalizing ds pos with
  | nil => exact .pure .nil
  | cons head calls ih =>
    obtain ⟨i, call⟩ := head
    refine ((hds i).call hg hs call).bind ?_
    rintro ⟨d, _⟩ ⟨hat, rfl⟩
    have hnext : ∀ j, (files j).At (Function.update ds i d j)
        (Function.update pos i (call.spec (files i).content (pos i)).1 j) := by
      intro j
      by_cases hj : j = i
      · subst hj
        simpa using hat
      · simpa [Function.update_of_ne hj] using hds j
    exact (ih hnext).bind fun results hresults => .pure hresults.cons

/-- On a volume that `fat16_probe` accepts, with clusters of at least one sector, every interleaving
of reads and seeks on freshly opened files returns, and delivers on each of them what its own calls
are for. -/
theorem seek_refines {kzallocOk : Nat → Bool} (hp : fat16Probe kzallocOk disk = .ok (.ok p))
    (hs : p.header.sectorsPerCluster ≠ 0) (files : ι → RegularFile disk p)
    (calls : List (ι × StreamCall)) :
    Gives disk (runStreamCalls p calls fun i => __fat16Open p (files i).item)
      (Serves (fun i => (files i).content) (fun _ => 0) calls) :=
  runStreamCalls_spec (fat16Probe_geometry hp) hs files calls fun _ =>
    ⟨RegularFile.open_item, rfl, by decide, fun h => by cases h⟩

/-- Two descriptors of a file of three bytes: one reads, seeks behind the end, reads, seeks back and
reads; the other reads in between. -/
theorem seek_refines_three_bytes :
    ∃ file : RegularFile (tinyDisk 1) (tinyVolume 1), file.content = [0, 1, 2] ∧
      Gives (tinyDisk 1)
        (runStreamCalls (tinyVolume 1)
          [(true, .read 1 2), (true, .seek 9 SEEK_CUR), (false, .readFile 1), (true, .readFile 1),
            (true, .seek (-10) SEEK_CUR), (true, .read 1 1)]
          fun _ => __fat16Open (tinyVolume 1) file.item)
        (Serves (fun _ => file.content) (fun _ => 0)
          [(true, .read 1 2), (true, .seek 9 SEEK_CUR), (false, .readFile 1), (true, .readFile 1),
            (true, .seek (-10) SEEK_CUR), (true, .read 1 1)]) ∧
      streamSpec [0, 1, 2] [.read 1 2, .seek 9 SEEK_CUR, .readFile 1, .seek (-10) SEEK_CUR,
        .read 1 1] 0 = [(2, [0, 1]), (0, []), (0, []), (0, []), (1, [1])] := by
  let file : RegularFile (tinyDisk 1) (tinyVolume 1) :=
    .ofCluster (tinyVolume 1).rootDirectory (tinyEntry 3) 1 2 (by decide) (by decide)
      (by decide) (by decide) (by decide) (by decide) (by decide) (by decide)
  refine ⟨file, ?_, seek_refines (fat16Probe_accepts (by decide) (by decide) (by decide))
    (by decide) (fun _ => file) _, by decide⟩
  have htake := RegularFile.chainBytes_take (f := file) (i := 0) (c := 2) (r := 0) (m := 3) rfl
    (by decide)
  rw [Nat.zero_mul, Nat.add_zero, List.drop_zero] at htake
  exact htake

end Streams

end AvocadOS
