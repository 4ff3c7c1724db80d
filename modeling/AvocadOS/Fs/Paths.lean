import AvocadOS.Fs.Model
import AvocadOS.Kernel.Ledger

/-!
# Parsed paths in memory

`PathAt s root drive segs`: at `root` there is a parsed path with the parts `segs`. It consists of
the blocks `pathBlocks root segs`.

* `pathparserPathParse_does`: the parser returns NULL and keeps nothing, or it returns a path and
  keeps its blocks;
* `pathparsePathFree_does`: all of them are freed again.
-/

namespace AvocadOS

open Kernel

/-- A part in memory: the addresses of the `path_part` and of its string. -/
structure Seg where
  part : Word
  string : Word
  name : List Byte

def Seg.blocks (g : Seg) : List Block := [⟨g.string, g.name.length + 1⟩, ⟨g.part, pathPartSize⟩]

/-- The list of the parts from `first` on. -/
def Linked (s : Kernel) : Word → List Seg → Prop
  | first, [] => first = 0
  | first, g :: segs => first = g.part ∧ g.part ≠ 0 ∧ g.string ≠ 0 ∧
      s.strings g.string = some g.name ∧
      ∃ next, s.parts g.part = some ⟨g.string, next⟩ ∧ Linked s next segs

structure PathAt (s : Kernel) (root : Word) (drive : Int) (segs : List Seg) : Prop where
  ne_null : root ≠ 0
  linked : ∃ first, s.roots root = some ⟨drive, first⟩ ∧ Linked s first segs

def pathBlocks (root : Word) (segs : List Seg) : List Block :=
  segs.flatMap Seg.blocks ++ [⟨root, pathRootSize⟩]

section

variable {s t u : Kernel} {own : List Block} {root first str : Word} {drive : Int}
  {segs : List Seg} {prev : Option Word} {E : Fault → Prop}

theorem Linked.congr (h : Linked u first segs)
    (hcells : ∀ b ∈ segs.flatMap Seg.blocks, t.cell b.ptr = u.cell b.ptr) :
    Linked t first segs := by
  induction segs generalizing first with
  | nil => exact h
  | cons g segs ih =>
    obtain ⟨hfirst, hpart, hstr, hname, next, hnext, hrest⟩ := h
    have hcells' := fun b hb => hcells b (List.mem_append_right _ hb)
    have hs : t.strings g.string = u.strings g.string :=
      strings_local.get_congr (hcells ⟨g.string, g.name.length + 1⟩ (by simp [Seg.blocks]))
    have hp : t.parts g.part = u.parts g.part :=
      parts_local.get_congr (hcells ⟨g.part, pathPartSize⟩ (by simp [Seg.blocks]))
    exact ⟨hfirst, hpart, hstr, hs.trans hname, next, hp.trans hnext, ih hrest hcells'⟩

/-- What a call does to its own blocks does not concern the parts that were there before. -/
theorem Linked.grown (h : Linked s first segs) (hg : Grown s u own) : Linked u first segs := by
  induction segs generalizing first with
  | nil => exact h
  | cons g segs ih =>
    obtain ⟨hfirst, hpart, hstr, hname, next, hnext, hrest⟩ := h
    exact ⟨hfirst, hpart, hstr, hg.get strings_local hname, next, hg.get parts_local hnext, ih hrest⟩

theorem PathAt.grown (h : PathAt s root drive segs) (hg : Grown s u own) :
    PathAt u root drive segs := by
  obtain ⟨first, hroot, hlinked⟩ := h.linked
  exact ⟨h.ne_null, first, hg.get roots_local hroot, hlinked.grown hg⟩

theorem PathAt.congr (h : PathAt u root drive segs)
    (hcells : ∀ b ∈ pathBlocks root segs, t.cell b.ptr = u.cell b.ptr) :
    PathAt t root drive segs := by
  obtain ⟨first, hroot, hlinked⟩ := h.linked
  refine ⟨h.ne_null, first, ?_, hlinked.congr fun b hb => hcells b (List.mem_append_left _ hb)⟩
  have hr : t.roots root = u.roots root :=
    roots_local.get_congr (hcells ⟨root, pathRootSize⟩ (by simp [pathBlocks]))
  exact hr.trans hroot

/-! ## Building the list -/

/-- `*current_segment`: the root's first part, or the next one of the part `prev`. -/
def SegmentAt (s : Kernel) (root : Word) (drive : Int) (str : Word) (first : Word) :
    Option Word → Prop
  | none => s.roots root = some ⟨drive, first⟩
  | some part => s.parts part = some ⟨str, first⟩

theorem SegmentAt.congr (h : SegmentAt u root drive str first prev)
    (hcell : t.cell (prev.getD root) = u.cell (prev.getD root)) :
    SegmentAt t root drive str first prev := by
  cases prev with
  | none => exact (roots_local.get_congr hcell).trans h
  | some part => exact (parts_local.get_congr hcell).trans h

theorem setSegment_does (hg : Grown s u own) (hmem : prev.getD root ∈ own.map Block.ptr)
    (hne : prev.getD root ≠ 0) (h : SegmentAt u root drive str first prev) (segment : Word) :
    Does E (setSegment root prev segment) u fun _ t =>
      Grown s t own ∧ SegmentAt t root drive str segment prev ∧ Elsewhere (prev.getD root) u t ∧
        t.requests = u.requests := by
  cases prev with
  | none => exact hg.modify roots_local hmem hne h _
  | some part => exact hg.modify parts_local hmem hne h _

/-- The answers to `n` requests are not NULL. -/
def Granted (s : Kernel) (first n : Nat) : Prop := ∀ i < n, s.answers (first + i) ≠ 0

theorem Granted.append {n m k : Nat} (h : Granted s n m) (h' : Granted s (n + m) k) :
    Granted s n (m + k) := by
  intro i hi
  rcases Nat.lt_or_ge i m with hlt | hge
  · exact h i hlt
  · have := h' (i - m) (by omega)
    rwa [show n + m + (i - m) = n + i by omega] at this

theorem Granted.one {n : Nat} (h : s.answers n ≠ 0) : Granted s n 1 := by
  intro i hi
  rwa [show n + i = n by omega]

theorem Granted.of_all (h : ∀ n, s.answers n ≠ 0) (n m : Nat) : Granted s n m := fun _ _ => h _

/-- Two requests for each part: a NULL among the answers is written through. -/
theorem pathparserAppend_does (hE : E .misallocated) (names : List (List Byte)) :
    ∀ {u : Kernel} {own : List Block} {str : Word} {prev : Option Word}, Grown s u own →
      prev.getD root ∈ own.map Block.ptr → prev.getD root ≠ 0 →
      SegmentAt u root drive str 0 prev →
      (¬ Granted s u.requests (2 * names.length) → E .nullDeref) →
      Does E (pathparserAppend root prev names) u fun _ t =>
        Granted s u.requests (2 * names.length) ∧ t.requests = u.requests + 2 * names.length ∧
        ∃ segs first, segs.map Seg.name = names ∧ Grown s t (segs.flatMap Seg.blocks ++ own) ∧
          SegmentAt t root drive str first prev ∧ Linked t first segs ∧
          ∀ b ∈ own, b.ptr ≠ prev.getD root → t.cell b.ptr = u.cell b.ptr := by
  induction names with
  | nil =>
    intro u own str prev hg _ _ h _
    exact .pure ⟨fun i hi => absurd hi (Nat.not_lt_zero i), rfl, [], 0, rfl, hg, h, rfl,
      fun _ _ _ => rfl⟩
  | cons name names ih =>
    intro u own str prev hg hmem hne h hnull
    rw [List.length_cons, show 2 * (names.length + 1) = 1 + (1 + 2 * names.length) by omega] at *
    refine (hg.alloc_cases hE parts_local (by decide) ⟨0, 0⟩).seq ?_
    rintro segment u₁ ⟨hr₁, ⟨rfl, hzero, hg₁, hsame₁⟩ | ⟨hsegment, hgrant₁, hnew, hg₁, hpart₁, he₁⟩⟩
    · -- the part is used without a check, behind the request for its string
      have hfault := hnull fun hgrant => hgrant 0 (by omega) hzero
      refine (setSegment_does hg₁ hmem hne (h.congr (hsame₁ _)) 0).seq fun _ u₂ ⟨hg₂, _⟩ => ?_
      exact (hg₂.alloc_cases hE strings_local (Nat.succ_pos _) []).seq
        fun _ _ _ => .bind (Store.modify_null hfault _)
    -- the new blocks are not the ones that were there
    have hapart : ∀ b ∈ own, b.ptr ≠ segment := fun b hb =>
      hnew.2 b (hg.mem_blocks.mpr (.inl hb))
    have hholder : prev.getD root ≠ segment := by
      obtain ⟨b, hb, heq⟩ := List.mem_map.mp hmem
      exact heq ▸ hapart b hb
    refine (setSegment_does hg₁ (List.mem_cons_of_mem _ hmem) hne
      (h.congr (he₁ _ hholder)) segment).seq fun _ u₂ ⟨hg₂, hset, he₂, hr₂⟩ => ?_
    have hpart₂ : u₂.parts segment = some ⟨0, 0⟩ :=
      (parts_local.get_congr (he₂ _ hholder.symm)).trans hpart₁
    refine (hg₂.alloc_cases hE strings_local (Nat.succ_pos _) []).seq ?_
    rintro string u₃ ⟨hr₃, ⟨rfl, hzero, hg₃, hsame₃⟩ | ⟨hstring, hgrant₃, hnew', hg₃, hstr₃, he₃⟩⟩
    · -- and so is the string
      have hfault := hnull fun hgrant => by
        rw [hr₂, hr₁] at hzero
        exact hgrant 1 (by omega) hzero
      refine (hg₃.modify parts_local (by simp) hsegment
        ((parts_local.get_congr (hsame₃ _)).trans hpart₂) _).seq fun _ _ _ => ?_
      exact .bind (Store.modify_null hfault _)
    have hapart' : ∀ b ∈ (⟨segment, pathPartSize⟩ : Block) :: own, b.ptr ≠ string := fun b hb =>
      hnew'.2 b (hg₂.mem_blocks.mpr (.inl hb))
    have hss : segment ≠ string := hapart' _ List.mem_cons_self
    have hpart₃ : u₃.parts segment = some ⟨0, 0⟩ :=
      (parts_local.get_congr (he₃ _ hss)).trans hpart₂
    refine (hg₃.modify parts_local (by simp) hsegment hpart₃ _).seq
      fun _ u₄ ⟨hg₄, hpart₄, he₄, hr₄⟩ => ?_
    have hstr₄ : u₄.strings string = some [] :=
      (strings_local.get_congr (he₄ _ hss.symm)).trans hstr₃
    refine (hg₄.modify strings_local (by simp) hstring hstr₄ _).seq
      fun _ u₅ ⟨hg₅, hstr₅, he₅, hr₅⟩ => ?_
    have hpart₅ : u₅.parts segment = some ⟨string, 0⟩ :=
      (parts_local.get_congr (he₅ _ hss)).trans hpart₄
    have hrequests : u₅.requests = u.requests + 1 + 1 := by rw [hr₅, hr₄, hr₃, hr₂, hr₁]
    have hgrant : Granted s u.requests (1 + 1) :=
      (Granted.one hgrant₁).append (.one (by rwa [hr₂, hr₁] at hgrant₃))
    refine (@ih u₅ _ string (some segment) hg₅ (by simp) hsegment hpart₅ fun hno => hnull fun hall =>
      hno fun i hi => ?_).mono ?_
    · have := hall (1 + (1 + i)) (by omega)
      rwa [show u.requests + (1 + (1 + i)) = u₅.requests + i by omega] at this
    rintro _ t ⟨hgrants, hrt, segs, first, hnames, hgt, hseg, hlinked, hcells⟩
    rw [hrequests] at hgrants
    refine ⟨by rw [← Nat.add_assoc]; exact hgrant.append hgrants, by omega, ?_⟩
    have hframe : ∀ b ∈ own, t.cell b.ptr = u₂.cell b.ptr := fun b hb => by
      have h₁ := hapart b hb
      have h₂ := hapart' b (List.mem_cons_of_mem _ hb)
      rw [hcells b (by simp [hb]) h₁, he₅ _ h₂, he₄ _ h₁, he₃ _ h₂]
    refine ⟨⟨segment, string, name⟩ :: segs, segment, by rw [List.map_cons, hnames],
      hgt.perm ?_, ?_, ⟨rfl, hsegment, hstring, ?_, first, hseg, hlinked⟩, fun b hb hb' => ?_⟩
    · rw [List.flatMap_cons, Seg.blocks]
      simp only [List.cons_append, List.nil_append]
      exact List.perm_middle.trans (List.perm_middle.cons _)
    · obtain ⟨b, hb, heq⟩ := List.mem_map.mp hmem
      exact hset.congr (heq ▸ hframe b hb)
    · refine (strings_local.get_congr (hcells ⟨string, name.length + 1⟩ ?_ hss.symm)).trans hstr₅
      exact List.mem_cons_self
    · rw [hframe b hb, he₂ _ hb', he₁ _ (hapart b hb)]

/-! ## Freeing it -/

theorem pathparseFreeParts_does {fuel : Nat} (hlen : segs.length < fuel)
    (hg : Grown s u (segs.flatMap Seg.blocks ++ own)) (h : Linked u first segs) :
    Does E (pathparseFreeParts fuel first) u fun _ t => Grown s t own ∧
      ∀ a, (∀ b ∈ segs.flatMap Seg.blocks, a ≠ b.ptr) → t.cell a = u.cell a := by
  induction segs generalizing fuel u first with
  | nil =>
    obtain ⟨fuel, rfl⟩ := Nat.exists_eq_add_one_of_ne_zero (Nat.ne_of_gt hlen)
    rw [pathparseFreeParts, if_pos (show first = 0 from h)]
    exact .pure ⟨hg, fun _ _ => rfl⟩
  | cons g segs ih =>
    obtain ⟨fuel, rfl⟩ := Nat.exists_eq_add_one_of_ne_zero (Nat.ne_zero_of_lt hlen)
    obtain ⟨rfl, hpart, hstring, -, next, hnext, hrest⟩ := h
    rw [pathparseFreeParts, if_neg hpart]
    refine .step (Store.load_eq hpart hnext) ?_
    dsimp only
    rw [if_pos hstring]
    refine hg.free_head.seq fun _ u₁ ⟨hg₁, he₁⟩ => hg₁.free_head.seq fun _ u₂ ⟨hg₂, he₂⟩ => ?_
    have hsame : ∀ a, a ≠ g.string → a ≠ g.part → u₂.cell a = u.cell a := fun a h₁ h₂ =>
      (he₂ a h₂).trans (he₁ a h₁)
    -- the blocks of the rest are others
    have hnodup := hg.nodup
    rw [List.map_append, List.nodup_append] at hnodup
    have hrest₂ : Linked u₂ next segs := hrest.congr fun b hb => by
      have hn := hnodup.1
      simp only [List.flatMap_cons, Seg.blocks, List.cons_append, List.nil_append, List.map_cons,
        List.nodup_cons, List.mem_cons, not_or] at hn
      have hmem : b.ptr ∈ (segs.flatMap Seg.blocks).map Block.ptr := List.mem_map_of_mem hb
      exact hsame _ (fun heq => hn.1.2 (heq ▸ hmem)) fun heq => hn.2.1 (heq ▸ hmem)
    refine (ih (Nat.lt_of_succ_lt_succ hlen) hg₂ hrest₂).mono ?_
    rintro _ t ⟨hgt, hcells⟩
    refine ⟨hgt, fun a ha => ?_⟩
    rw [List.flatMap_cons] at ha
    rw [hcells a fun b hb => ha b (List.mem_append_right _ hb)]
    exact hsame a (ha ⟨g.string, g.name.length + 1⟩ (by simp [Seg.blocks]))
      (ha ⟨g.part, pathPartSize⟩ (by simp [Seg.blocks]))

theorem pathparsePathFree_does (hlen : segs.length < MAX_PATH_LEN)
    (hg : Grown s u (pathBlocks root segs ++ own)) (h : PathAt u root drive segs) :
    Does E (pathparsePathFree root) u fun _ t => Grown s t own ∧
      ∀ a, (∀ b ∈ pathBlocks root segs, a ≠ b.ptr) → t.cell a = u.cell a := by
  obtain ⟨first, hroot, hlinked⟩ := h.linked
  rw [pathBlocks, List.append_assoc] at hg
  refine .step (Store.load_eq h.ne_null hroot) ?_
  refine (pathparseFreeParts_does hlen hg hlinked).seq fun _ u₁ ⟨hg₁, hcells⟩ => ?_
  refine hg₁.free_head.mono fun _ t ⟨hgt, he⟩ => ⟨hgt, fun a ha => ?_⟩
  rw [he a (ha ⟨root, pathRootSize⟩ (by simp [pathBlocks]))]
  exact hcells a fun b hb => ha b (List.mem_append_left _ hb)

/-! ## Parsing -/

theorem pathParts_length_le (fuel : Nat) (rest : List Byte) :
    (pathParts fuel rest).length ≤ rest.length := by
  induction fuel generalizing rest with
  | zero => simp [pathParts]
  | succ fuel ih =>
    rw [pathParts]
    split
    · simp
    split
    · rw [List.length_singleton]
      omega
    · rename_i hne _
      have := ih (rest.drop ((rest.takeWhile (· ≠ 0x2F)).length + 1))
      rw [List.length_drop] at this
      have hle := (List.takeWhile_prefix (p := fun c : Byte => decide (c ≠ 0x2F)) (l := rest)).length_le
      rw [List.length_cons]
      omega

theorem partsOf_length_lt (path : List Byte) : (partsOf path).length < MAX_PATH_LEN := by
  have h := pathParts_length_le (strnlen path MAX_PATH_LEN)
    ((path.take (strnlen path MAX_PATH_LEN)).drop 3)
  have hle := strnlen_le path MAX_PATH_LEN
  have hpos : 0 < MAX_PATH_LEN := by decide
  rw [List.length_drop, List.length_take] at h
  unfold partsOf
  dsimp only
  omega

theorem drive_nonneg {path : List Byte} (h : pathparserPathIsValid path = true) :
    ¬ pathparserPathGetDrive path < 0 := by
  simp only [pathparserPathIsValid, isDigit, Bool.and_eq_true, decide_eq_true_eq] at h
  unfold pathparserPathGetDrive
  omega

/-- The parser: nothing is left of an invalid path, and of a valid one exactly its parts. -/
theorem pathparserPathParse_does (hE : E .misallocated) (hok : ∀ b ∈ s.blocks, 0 < b.size)
    (path : List Byte) (hnull : ¬ Granted s s.requests (1 + 2 * (partsOf path).length) → E .nullDeref) :
    Does E (pathparserPathParse path) s fun root t =>
      (pathparserPathIsValid path = false → root = 0 ∧ t = s) ∧
      (pathparserPathIsValid path = true →
        (root = 0 ∧ s.answers s.requests = 0 ∧ Grown s t []) ∨
        (Granted s s.requests (1 + 2 * (partsOf path).length) ∧
          t.requests = s.requests + (1 + 2 * (partsOf path).length) ∧
          ∃ segs, segs.map Seg.name = partsOf path ∧
            PathAt t root (pathparserPathGetDrive path) segs ∧ Grown s t (pathBlocks root segs))) := by
  rw [pathparserPathParse]
  cases hvalid : pathparserPathIsValid path with
  | false => exact .pure ⟨fun _ => ⟨rfl, rfl⟩, fun h => by cases h⟩
  | true =>
    rw [if_pos rfl]
    refine ((Grown.refl hok).alloc_cases hE roots_local (by decide) ⟨0, 0⟩).seq ?_
    rintro root u₁ ⟨hr₁, ⟨rfl, hzero, hg₁, -⟩ | ⟨hne, hgrant₁, -, hg₁, hroot₁, -⟩⟩
    · rw [if_pos rfl]
      exact .pure ⟨fun h => (by cases h), fun _ => .inl ⟨rfl, hzero, hg₁⟩⟩
    rw [if_neg hne]
    refine (hg₁.modify roots_local (by simp) hne hroot₁ _).seq fun _ u₂ ⟨hg₂, hroot₂, _, hr₂⟩ => ?_
    rw [if_neg (drive_nonneg hvalid)]
    have hrequests : u₂.requests = s.requests + 1 := by rw [hr₂, hr₁]
    refine (@pathparserAppend_does s root _ E hE (partsOf path) u₂ _ 0 none hg₂ (by simp) hne hroot₂
      fun hno => hnull fun hall => hno fun i hi => ?_).seq ?_
    · have := hall (1 + i) (by omega)
      rwa [show s.requests + (1 + i) = u₂.requests + i by omega] at this
    rintro _ t ⟨hgrants, hrt, segs, first, hnames, hgt, hseg, hlinked, -⟩
    rw [hrequests] at hgrants
    refine .pure ⟨fun h => (by cases h), fun _ => .inr ⟨(Granted.one hgrant₁).append hgrants, by omega,
      segs, hnames, ⟨hne, first, hseg, hlinked⟩, hgt⟩⟩

end

end AvocadOS
