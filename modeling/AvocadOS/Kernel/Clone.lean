import AvocadOS.Kernel.Mapping

/-!
# `paging_clone_directory` of the kernel's directory

Every entry of the kernel's directory is the kernel's own, so the copy shares all page tables and
has none but itself (entry 1023).

* `cloneEntries_eq`: the loop;
* `pagingCloneDirectory_ok`: the copy is new, and has the page tables of the kernel.
-/

namespace AvocadOS

open Kernel

/-- The first `n` entries. -/
def below (n : Nat) (f : Nat → Word) (i : Nat) : Word := if i < n then f i else 0

theorem below_zero (f : Nat → Word) : below 0 f = fun _ => 0 := by
  funext i
  rw [below, if_neg (Nat.not_lt_zero i)]

theorem update_below (n : Nat) (f : Nat → Word) :
    Function.update (below n f) n (f n) = below (n + 1) f := by
  funext i
  by_cases hi : i = n
  · subst hi
    simp [below]
  · have hlt : i < n + 1 ↔ i < n := by omega
    simp [below, hi, hlt]

theorem below_succ_of_zero {n : Nat} {f : Nat → Word} (h : f n = 0) : below (n + 1) f = below n f := by
  rw [← update_below, h]
  refine Function.update_eq_self_iff.mpr ?_
  simp [below]

/-- The copy at `copy`, with its directory at `D`. -/
def Kernel.withCopy (s : Kernel) (copy D : Word) (dv d : Nat → Word) : Kernel :=
  { s with
    tables := Function.update s.tables D (some d)
    handles := Function.update s.handles copy (some ⟨D, dv⟩) }

section

variable {P : Word → Prop} {s t : Kernel} {kernel copy D : Word} {hd : PageDirectoryHandle}
  {dir dv d : Nat → Word} {i : Nat}

/-- One iteration, on the way from `s`. -/
theorem cloneEntry_eq (hk : DirInv P s kernel hd dir) (himage : kernel = s.image.kernelPageDirectory)
    (hcopy : copy ≠ 0) (hne : kernel ≠ copy) (hD : D ≠ 0) (hne' : hd.directory ≠ D) :
    cloneEntry kernel copy i (s.withCopy copy D dv d) = .ok ((),
      if dir i = 0 then s.withCopy copy D dv d
      else s.withCopy copy D (Function.update dv i (hd.directoryVirtual i))
        (Function.update d i (dir i))) := by
  have hhandle : (s.withCopy copy D dv d).handles kernel = some hd :=
    (Function.update_of_ne hne _ _).trans hk.handle
  have hdir : (s.withCopy copy D dv d).tables hd.directory = some dir :=
    (Function.update_of_ne hne' _ _).trans hk.directory
  have hcopied : (s.withCopy copy D dv d).handles copy = some ⟨D, dv⟩ := Function.update_self _ _ _
  have htable : (s.withCopy copy D dv d).tables D = some d := Function.update_self _ _ _
  rw [cloneEntry, bind_eq (Store.load_eq hk.ne_null hhandle),
    bind_eq (Store.load_eq hk.directory_ne_null hdir)]
  by_cases h₀ : dir i = 0
  · rw [if_pos h₀, if_pos h₀]
    rfl
  · rw [if_neg h₀, if_neg h₀, bind_get_eq]
    rw [show (s.withCopy copy D dv d).image.kernelPageDirectory = kernel from himage.symm,
      bind_eq (Store.load_eq hk.ne_null hhandle), bind_eq (Store.load_eq hk.directory_ne_null hdir),
      if_pos rfl, setDirectory, bind_assoc, bind_eq (Store.load_eq hcopy hcopied),
      bind_eq (Store.modify_eq hD htable), setDirectoryVirtual, Store.modify_eq hcopy hcopied]
    simp only [tables_get, tables_put, handles_get, handles_put, Kernel.withCopy,
      Function.update_idem]

theorem cloneEntries_eq (hk : DirInv P s kernel hd dir)
    (himage : kernel = s.image.kernelPageDirectory) (hcopy : copy ≠ 0) (hne : kernel ≠ copy)
    (hD : D ≠ 0) (hne' : hd.directory ≠ D) {n : Nat} (hn : n ≤ 1023) :
    cloneEntries kernel copy n
        (s.withCopy copy D (below (1023 - n) hd.directoryVirtual) (below (1023 - n) dir)) =
      .ok ((), s.withCopy copy D (below 1023 hd.directoryVirtual) (below 1023 dir)) := by
  induction n with
  | zero => rfl
  | succ n ih =>
    have hsucc : 1023 - n = 1023 - (n + 1) + 1 := by omega
    rw [cloneEntries, bind_eq (cloneEntry_eq hk himage hcopy hne hD hne')]
    refine Eq.trans ?_ (ih (by omega))
    rw [hsucc]
    split
    · rename_i h₀
      -- an entry that the kernel does not have is zero in the copy
      have hv : hd.directoryVirtual (1023 - (n + 1)) = 0 := by
        by_contra hv
        exact (hk.present _ (by omega) hv).ne_zero h₀
      rw [below_succ_of_zero hv, below_succ_of_zero h₀]
    · rw [update_below, update_below]

/-! ## The copy -/

/-- The handle and the directory of the copy: the last entry is for itself. -/
def copyHandle (hd : PageDirectoryHandle) (D : Word) : PageDirectoryHandle :=
  ⟨D, Function.update (below 1023 hd.directoryVirtual) 1023 D⟩

def copyDirectory (dir : Nat → Word) (e : Word) : Nat → Word :=
  Function.update (below 1023 dir) 1023 e

theorem copyHandle_of_lt (hi : i < 1023) :
    (copyHandle hd D).directoryVirtual i = hd.directoryVirtual i := by
  have hne : i ≠ 1023 := by omega
  simp [copyHandle, hne, below, hi]

theorem copyDirectory_of_lt {e : Word} (hi : i < 1023) : copyDirectory dir e i = dir i := by
  have hne : i ≠ 1023 := by omega
  simp [copyDirectory, hne, below, hi]

theorem copyHandle_last : (copyHandle hd D).directoryVirtual 1023 = D := by
  simp [copyHandle]

/-- A new handle and a new page. -/
theorem Extends.of_new (hfresh : s.handles copy = none) (hfresh' : s.tables D = none)
    (hhandles : t.handles = Function.update s.handles copy (some hd))
    (htables : t.tables = Function.update s.tables D (some dir)) : Extends s t := by
  refine ⟨fun a x hx => ?_, fun a x hx => ?_⟩
  · rw [htables, Function.update_of_ne, hx]
    rintro rfl
    rw [hfresh'] at hx
    cases hx
  · rw [hhandles, Function.update_of_ne, hx]
    rintro rfl
    rw [hfresh] at hx
    cases hx

theorem DirInv.copied {e : Word} (hk : DirInv P s kernel hd dir) (hcopy : copy ≠ 0) (hD : D ≠ 0)
    (hfresh : s.handles copy = none) (hfresh' : s.tables D = none) (he : Entry P e)
    (htables : t.tables = Function.update s.tables D (some (copyDirectory dir e)))
    (hhandles : t.handles = Function.update s.handles copy (some (copyHandle hd D)))
    (hcur : t.currentDirectory = s.currentDirectory) (hcr4 : t.cr4 = s.cr4) :
    Builds P (fun i => hd.directoryVirtual i = 0) s t copy (copyHandle hd D) (copyDirectory dir e) ∧
      t.space copy = s.space kernel := by
  have hkept : Extends s t := .of_new hfresh hfresh' hhandles htables
  -- the new directory is none of the shared tables
  have hnew : ∀ i < 1024, hd.directoryVirtual i ≠ D := by
    rintro i hi rfl
    exact hk.tables i hi hD hfresh'
  have hinv : DirInv P t copy (copyHandle hd D) (copyDirectory dir e) := by
    refine ⟨hcopy, by rw [hhandles, Function.update_self], hD, ?_, copyHandle_last, ?_, ?_, ?_, ?_⟩
    · rw [htables]
      exact Function.update_self _ _ _
    · intro i hi hv
      by_cases hlast : i = 1023
      · rw [hlast, copyHandle_last, htables, Function.update_self]
        simp
      · rw [copyHandle_of_lt (by omega)] at hv ⊢
        obtain ⟨x, hx⟩ := Option.ne_none_iff_exists'.mp (hk.tables i hi hv)
        simp [hkept.tables _ _ hx]
    · intro i hi j hj hv hij
      by_cases hlast : i = 1023 <;> by_cases hlast' : j = 1023
      · rw [hlast, hlast']
      · rw [hlast, copyHandle_last, copyHandle_of_lt (by omega)] at hij
        exact absurd hij.symm (hnew j hj)
      · rw [hlast', copyHandle_last, copyHandle_of_lt (by omega)] at hij
        exact absurd hij (hnew i hi)
      · rw [copyHandle_of_lt (by omega)] at hv hij
        rw [copyHandle_of_lt (by omega)] at hij
        exact hk.inj i hi j hj hv hij
    · intro i hi hv
      by_cases hlast : i = 1023
      · rw [hlast]
        exact (Function.update_self 1023 e (below 1023 dir)).symm ▸ he
      · rw [copyHandle_of_lt (by omega)] at hv
        rw [copyDirectory_of_lt (by omega)]
        exact hk.present i hi hv
    · intro i hi hv
      by_cases hlast : i = 1023
      · rw [hlast, copyHandle_last] at hv
        exact absurd hv hD
      · rw [copyHandle_of_lt (by omega)] at hv
        rw [copyDirectory_of_lt (by omega)]
        exact hk.absent i hi hv
  refine ⟨⟨hinv, hkept, ⟨hfresh, hfresh', fun i hi hU hv => ?_⟩, hcur, hcr4⟩, ?_⟩
  · rw [copyHandle_of_lt hi] at hv
    exact absurd hU hv
  · funext i
    by_cases hi : i < 1023
    · rw [hinv.space_eq hi, hk.space_eq hi, copyHandle_of_lt hi]
      split
      · rfl
      · rename_i hv
        obtain ⟨x, hx⟩ := Option.ne_none_iff_exists'.mp (hk.tables i (by omega) hv)
        rw [hx, hkept.tables _ _ hx]
    · rw [Kernel.space, if_neg hi, Kernel.space, if_neg hi]

/-- The handle still has its directory. -/
def SameDirectory (copy : Word) (s t : Kernel) : Prop :=
  (t.handles copy).map PageDirectoryHandle.directory =
    (s.handles copy).map PageDirectoryHandle.directory

instance : Std.Refl (SameDirectory copy) := ⟨fun _ => rfl⟩

instance : Trans (SameDirectory copy) (SameDirectory copy) (SameDirectory copy) :=
  ⟨fun h₁ h₂ => Eq.trans h₂ h₁⟩

theorem setDirectoryVirtual_sameDirectory (table : Word) :
    Keeps (SameDirectory copy) (setDirectoryVirtual copy i table) := by
  intro s x t h
  obtain ⟨hd, hhd, rfl⟩ := setDirectoryVirtual_ok h
  simp only [SameDirectory, hhd, Function.update_self, Option.map_some]

theorem cloneEntries_sameDirectory (n : Nat) :
    Keeps (SameDirectory copy) (cloneEntries kernel copy n) := by
  have hset : ∀ i e, Keeps (SameDirectory copy) (setDirectory copy i e) := by
    intro i e s x t h
    obtain ⟨hd, dir, -, -, -, rfl⟩ := setDirectory_ok h
    rfl
  have hmodify : ∀ p f, Keeps (SameDirectory copy) (tables.modify p f) := by
    intro p f s x t h
    obtain ⟨-, y, -, rfl⟩ := Store.modify_ok h
    rfl
  have halloc : ∀ size x, Keeps (SameDirectory copy) (tables.alloc size x) := by
    intro size x s a t h
    rcases Store.alloc_ok h with ⟨-, rfl⟩ | ⟨-, -, rfl⟩ <;> rfl
  induction n with
  | zero => exact .pure _
  | succ n ih =>
    refine .bind ?_ fun _ => ih
    refine .bind (keeps_load _) fun src => .bind (keeps_load _) fun dir => .ite (.pure _) ?_
    refine .bind .get fun s => .bind (keeps_load _) fun hd => .bind (keeps_load _) fun dir' => ?_
    refine .ite (.bind (hset _ _) fun _ => setDirectoryVirtual_sameDirectory _) ?_
    refine .bind (halloc _ _) fun table => .bind (setDirectoryVirtual_sameDirectory _) fun _ => ?_
    refine .bind (keeps_load _) fun x => .bind (hmodify _ _) fun _ => ?_
    exact .bind .get fun s => .bind (virtualToPhysicalAddr_keeps _ _) fun _ => hset _ _

/-- The two allocations, the loop, and the entry for the copy itself. -/
theorem pagingCloneDirectory_parts (h : pagingCloneDirectory kernel s = .ok (copy, t)) :
    ∃ D m u v phys, copy ≠ 0 ∧ D ≠ 0 ∧ D &&& 0xfff = 0 ∧ s.handles copy = none ∧ s.tables D = none ∧
      m = { s with
        requests := m.requests
        blocks := m.blocks
        tables := Function.update s.tables D (some fun _ => 0)
        handles := Function.update s.handles copy (some ⟨D, fun _ => 0⟩) } ∧
      cloneEntries kernel copy 1023 m = .ok ((), u) ∧
      setDirectoryVirtual copy 1023 D u = .ok ((), v) ∧
      virtualToPhysicalAddr v.currentDirectory D v = .ok (phys, v) ∧
      setDirectory copy 1023 (phys ||| (PAGING_WRITABLE_PAGE ||| PAGING_PRESENT)) v = .ok ((), t) := by
  obtain ⟨_, s₁, halloc, h⟩ := bind_ok h
  obtain ⟨D, s₂, halloc', h⟩ := bind_ok h
  obtain ⟨_, m, hput, h⟩ := bind_ok h
  obtain ⟨_, u, hclone, h⟩ := bind_ok h
  obtain ⟨_, v, hlast, h⟩ := bind_ok h
  obtain ⟨phys, v', hphys, h⟩ := bind_ok (bind_get_ok h)
  obtain ⟨_, w, hset, h⟩ := bind_ok h
  obtain ⟨rfl, rfl⟩ := pure_ok h
  obtain ⟨hcopy, x, hx, hm⟩ := Store.modify_ok hput
  -- there was memory for both
  obtain ⟨-, hfresh, hs₁⟩ := (Store.alloc_ok halloc).resolve_left fun h => hcopy h.1
  have hD : D ≠ 0 := by
    obtain ⟨hd₆, dir₆, hhd₆, hne₆, -⟩ := setDirectory_ok hset
    obtain rfl := virtualToPhysicalAddr_state hphys
    have hsame := Trans.trans (cloneEntries_sameDirectory _ hclone)
      (setDirectoryVirtual_sameDirectory _ hlast)
    rw [SameDirectory, hhd₆, hm] at hsame
    rintro rfl
    have := hsame.trans (congrArg _ (Function.update_self _ _ _))
    exact hne₆ (by simpa using this)
  obtain ⟨-, hfresh', hs₂⟩ := (Store.alloc_ok halloc').resolve_left fun h => hD h.1
  obtain rfl := virtualToPhysicalAddr_state hphys
  have hnone : s.tables D = none := by
    have := hfresh'.vacant.1
    rwa [hs₁] at this
  refine ⟨D, m, u, v', phys, hcopy, hD, aligned_iff_mod.mpr hfresh'.1, hfresh.vacant.2.1, hnone, ?_,
    hclone, hlast, hphys, hset⟩
  rw [hm, hs₂, hs₁]
  simp only [tables_get, tables_put, handles_get, handles_put, Kernel.asked, Kernel.withBlock,
    Function.update_idem]

/-- The copy of the kernel's directory is new, and has its page tables. -/
theorem pagingCloneDirectory_ok (hk : DirInv P s kernel hd dir)
    (himage : kernel = s.image.kernelPageDirectory) (hP : Physical P s)
    (h : pagingCloneDirectory kernel s = .ok (copy, t)) :
    (∃ hd' dir', Builds P (fun i => hd.directoryVirtual i = 0) s t copy hd' dir') ∧
      t.space copy = s.space kernel := by
  obtain ⟨D, s₃, s₄, s₆, phys, hcopy, hD, halign, hnone, hnone', hs₃, hclone, hlast, hphys, hset⟩ :=
    pagingCloneDirectory_parts h
  have hne : kernel ≠ copy := by
    rintro rfl
    rw [hk.handle] at hnone
    cases hnone
  have hne' : hd.directory ≠ D := by
    rintro rfl
    rw [hk.directory] at hnone'
    cases hnone'
  -- before the loop
  obtain ⟨m, hm⟩ : ∃ m : Kernel, m = { s with requests := s₃.requests, blocks := s₃.blocks } := ⟨_, rfl⟩
  obtain rfl : s₃ = m.withCopy copy D (below 0 hd.directoryVirtual) (below 0 dir) := by
    rw [hm, below_zero, below_zero, hs₃]
    rfl
  have hk' : DirInv P m kernel hd dir := (hk.congr (by rw [hm]) (by rw [hm])).1
  have hloop := cloneEntries_eq hk' (himage.trans (by rw [hm])) hcopy hne hD hne' (Nat.le_refl 1023)
  rw [hloop] at hclone
  cases hclone
  -- and behind it
  obtain ⟨hd₅, hhd₅, hs₆⟩ := setDirectoryVirtual_ok hlast
  obtain rfl : hd₅ = ⟨D, below 1023 hd.directoryVirtual⟩ :=
    Option.some.inj (hhd₅.symm.trans (Function.update_self _ _ _))
  have htables : s₆.tables = Function.update s.tables D (some (below 1023 dir)) := by
    rw [hs₆, hm]
    rfl
  have hhandles : s₆.handles = Function.update s.handles copy (some (copyHandle hd D)) := by
    rw [hs₆, hm]
    exact Function.update_idem _ _ _
  have hcur : s₆.currentDirectory = s.currentDirectory := by
    rw [hs₆, hm]
    rfl
  have hcr4 : s₆.cr4 = s.cr4 := by
    rw [hs₆, hm]
    rfl
  have hkept : Extends s s₆ := .of_new hnone hnone' hhandles htables
  obtain ⟨-, hentry⟩ := hP.entry hkept hcur hcr4 halign (.inl rfl) hphys
  obtain ⟨hd₆, dir₆, hhd₆, -, hdir₆, hs₇⟩ := setDirectory_ok hset
  obtain rfl : hd₆ = copyHandle hd D := by
    rw [hhandles, Function.update_self] at hhd₆
    exact (Option.some.inj hhd₆).symm
  have hdir₆' : Function.update s.tables D (some (below 1023 dir)) D = some dir₆ := htables ▸ hdir₆
  obtain rfl : below 1023 dir = dir₆ := by simpa using hdir₆'
  have htables' : t.tables = Function.update s.tables D (some (copyDirectory dir (phys ||| 3))) := by
    rw [hs₇]
    change Function.update s₆.tables D _ = _
    rw [htables, Function.update_idem]
    rfl
  obtain ⟨hb, hspace⟩ := hk.copied hcopy hD hnone hnone' hentry htables' (by rw [hs₇, hhandles])
    (by rw [hs₇, hcur]) (by rw [hs₇, hcr4])
  exact ⟨⟨_, _, hb⟩, hspace⟩

end

end AvocadOS
