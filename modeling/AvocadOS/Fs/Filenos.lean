import AvocadOS.Fs.Table

/-!
# The numbers that `fstat`, `fclose` and `fread` use

All three index `file_table.table` with a number that they do not check: `fstat` with its argument,
`fclose` and `fread` with the `fileno` of the stream. The check is in `file_table_close_file` and in
`file_table_get_descriptor`, which is not called.

* `Held.fstat_ok`: what `fstat` returns for a number in range;
* `FileSession.filenos_validated_iff`: after every sequence of calls `fstat` does what is expected of
  it exactly for the numbers in range, and `fclose` and `fread` never do for a closed file.
-/

namespace AvocadOS

open Kernel

/-- `fd` is the number of an open file. -/
def FileSession.IsFileno (s : FileSession) (fd : Int) : Prop :=
  ∃ stream ∈ s.files, ∃ x, s.kernel.files stream = some x ∧ x.fileno = fd

/-- `fstat` stays within the table, and refuses what is not the number of an open file. -/
def FileSession.StatValidated (s : FileSession) (fd : Int) : Prop :=
  fstat fd s.kernel ≠ .error .outOfBounds ∧
    (¬ s.IsFileno fd → ∃ size t, fstat fd s.kernel = .ok ((-EBADF, size), t))

/-- The file at `stream` is closed: its memory is free, or still holds the -1 that
`file_table_close_file` stored in it. -/
def FileClosed (s : Kernel) (stream : Word) : Prop := ∀ x, s.files stream = some x → x.fileno = -1

/-- `fclose` refuses a closed file. -/
def CloseValidated (s : Kernel) (stream : Word) : Prop := ∃ t, fclose stream s = .ok (-EBADF, t)

/-- And `fread` reads nothing from it. -/
def ReadValidated (s : Kernel) (stream : Word) (size nmemb : Nat) : Prop :=
  ∃ out t, fread size nmemb stream s = .ok ((0, out), t)

/-! ## `fstat` -/

theorem getFileTable_eq {fd : Int} (s : Kernel) (h : 0 ≤ fd ∧ fd < MAX_OPEN_FILES) :
    getFileTable fd s = .ok (s.fileTable fd.toNat, s) := by
  rw [getFileTable, if_pos h, bind_get_eq]
  rfl

theorem getFileTable_error {fd : Int} (s : Kernel) (h : ¬ (0 ≤ fd ∧ fd < MAX_OPEN_FILES)) :
    getFileTable fd s = .error .outOfBounds := by
  rw [getFileTable, if_neg h]

theorem fstat_error {fd : Int} (s : Kernel) (h : ¬ (0 ≤ fd ∧ fd < MAX_OPEN_FILES)) :
    fstat fd s = .error .outOfBounds := by
  rw [fstat]
  simp only [Bind.bind, StateT.bind, Except.bind, getFileTable_error s h]

/-- For a number in range: the size of an open file, or an error if the slot is free. -/
theorem Held.fstat_ok {base : Kernel} {s : FileSession} {handle : Word → Handle}
    (h : Held base s handle) {fd : Int} (hfd : 0 ≤ fd ∧ fd < MAX_OPEN_FILES) :
    (s.IsFileno fd ∧ ∃ size, fstat fd s.kernel = .ok ((0, size), s.kernel)) ∨
      fstat fd s.kernel = .ok ((-EBADF, 0), s.kernel) := by
  rw [fstat, bind_eq (getFileTable_eq s.kernel hfd)]
  by_cases hslot : s.kernel.fileTable fd.toNat = 0
  · rw [if_pos hslot]
    exact .inr rfl
  · rw [if_neg hslot]
    left
    obtain ⟨o, ho, hno⟩ := h.others fd.toNat (by omega) hslot
    have hfile := h.fileAt ho
    obtain ⟨p, hp⟩ := Option.ne_none_iff_exists'.mp (h.mounted (List.ne_nil_of_mem ho))
    obtain ⟨hdne, d, hd⟩ := (h.inMemory o ho).descriptor
    have hne : o.file ≠ 0 := by
      rw [← h.file o ho]
      exact (h.inMemory o ho).file_ne
    refine ⟨⟨o.file, List.mem_map_of_mem ho, _, hfile, ?_⟩, d.item.entry.sizeBytes, ?_⟩
    · dsimp only
      omega
    · rw [← hno, (h.slot o ho).2, bind_eq (Store.load_eq hne hfile),
        bind_eq (operationsOf_eq h.disk_ne hp)]
      exact bind_eq (Store.load_eq hdne hd)

/-! ## Closed files -/

/-- The first thing that `fclose` and `fread` do is to use the number of the file. -/
theorem FileClosed.index_error {s : Kernel} {stream : Word} (h : FileClosed s stream) :
    ∃ e, (do getFileTable (← files.load stream).fileno : K Word) s = .error e := by
  by_cases hnull : stream = 0
  · refine ⟨.nullDeref, ?_⟩
    simp only [Bind.bind, StateT.bind, Except.bind, Store.load, if_pos hnull]
  cases hfile : s.files stream with
  | none =>
    refine ⟨.badDeref, ?_⟩
    simp only [Bind.bind, StateT.bind, Except.bind, Store.load, if_neg hnull,
      show files.get s stream = none from hfile]
  | some x =>
    refine ⟨.outOfBounds, ?_⟩
    rw [bind_eq (Store.load_eq hnull hfile), h x hfile]
    exact getFileTable_error s (by decide)

theorem FileClosed.fclose_error {s : Kernel} {stream : Word} (h : FileClosed s stream) :
    ∃ e, fclose stream s = .error e := by
  obtain ⟨e, he⟩ := h.index_error
  refine ⟨e, ?_⟩
  rw [fclose, ← bind_assoc]
  simp only [Bind.bind, StateT.bind, Except.bind] at he ⊢
  rw [he]

theorem FileClosed.fread_error {s : Kernel} {stream : Word} (h : FileClosed s stream)
    (size nmemb : Nat) : ∃ e, fread size nmemb stream s = .error e := by
  obtain ⟨e, he⟩ := h.index_error
  refine ⟨e, ?_⟩
  rw [fread, ← bind_assoc]
  simp only [Bind.bind, StateT.bind, Except.bind] at he ⊢
  rw [he]

namespace FileSession

/-- After every sequence of calls: `fstat` refuses exactly the numbers in range that are not those of
open files, and the uses of a closed file are not refused. -/
theorem filenos_validated_iff {base : Kernel} (hdisk : base.image.disk ≠ 0) (hheap : base.HeapOk)
    (hempty : ∀ i < MAX_OPEN_FILES, base.fileTable i = 0) {requests : List FileRequest}
    {s : FileSession} (h : Runs Step ⟨base, []⟩ requests s) :
    (∀ fd, s.StatValidated fd ↔ 0 ≤ fd ∧ fd < MAX_OPEN_FILES) ∧
      ∀ k stream, FileClosed k stream →
        ¬ CloseValidated k stream ∧ ∀ size nmemb, ¬ ReadValidated k stream size nmemb := by
  obtain ⟨-, handle, hheld⟩ := runs_held hdisk hheap hempty h
  refine ⟨fun fd => ⟨fun hvalid => ?_, fun hrange => ?_⟩, fun k stream hclosed => ⟨?_, ?_⟩⟩
  · by_contra hno
    exact hvalid.1 (fstat_error s.kernel hno)
  · obtain ⟨hopen, size, hrun⟩ | hrun := hheld.fstat_ok hrange
    · exact ⟨hrun ▸ nofun, fun hno => absurd hopen hno⟩
    · exact ⟨hrun ▸ nofun, fun _ => ⟨0, s.kernel, hrun⟩⟩
  · rintro ⟨t, hrun⟩
    obtain ⟨e, he⟩ := hclosed.fclose_error
    cases he.symm.trans hrun
  · rintro size nmemb ⟨out, t, hrun⟩
    obtain ⟨e, he⟩ := hclosed.fread_error size nmemb
    cases he.symm.trans hrun

/-- With one file open. -/
theorem filenos_validated_one_file : ∃ s : FileSession, s.files = [0xC0203000] ∧
    s.StatValidated 0 ∧ s.StatValidated 1 ∧ ¬ s.StatValidated MAX_OPEN_FILES := by
  obtain ⟨k, hstep⟩ := fullKernel_step
  obtain ⟨hstat, -⟩ := filenos_validated_iff (by decide) fullKernel_heap (fun _ _ => rfl)
    (.cons hstep (.nil _))
  exact ⟨_, rfl, (hstat 0).mpr (by decide), (hstat 1).mpr (by decide),
    fun h => absurd ((hstat _).mp h) (by decide)⟩

theorem fstat_minus_one_faults :
    ¬ ∀ (base : Kernel) (requests : List FileRequest) (s : FileSession), base.image.disk ≠ 0 →
      base.HeapOk → (∀ i < MAX_OPEN_FILES, base.fileTable i = 0) →
      Runs Step ⟨base, []⟩ requests s → (∀ fd, s.StatValidated fd) ∧
        ∀ k stream, FileClosed k stream →
          CloseValidated k stream ∧ ∀ size nmemb, ReadValidated k stream size nmemb := by
  intro hclaim
  obtain ⟨hstat, -⟩ := hclaim fullKernel [] _ (by decide) fullKernel_heap (fun _ _ => rfl) (.nil _)
  exact (hstat (-1)).1 (fstat_error _ (by decide))

end FileSession

end AvocadOS
