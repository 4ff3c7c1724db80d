import AvocadOS.Fs.Lookup
import Mathlib.Data.List.TakeWhile
import Mathlib.Data.List.Induction

/-!
# The components of a path

A path is written as the digit of a drive, `:/` and its components with slashes between them; the
parser takes this apart again. A component is then split into the name and the extension of a
directory entry.

* `partsOf_render`: the parts of a rendered path are its components;
* `parse_render`: so the parser inverts the rendering, and rejects what is no path;
* `splitEntryNameWrites`: what `fat16_split_entry_name` writes to the two arrays of its caller, one
  byte after the other;
* `splitsInside_iff`: for which names this stays inside them.
-/

namespace AvocadOS

open Kernel

/-! ## Rendering and parsing -/

/-- The path of the `components` on the drive `drive`. -/
def renderPath (drive : Fin 10) (components : List (List Byte)) (trailing : Bool) : List Byte :=
  BitVec.ofNat 8 (0x30 + drive) :: 0x3A :: 0x2F ::
    ([0x2F].intercalate components ++ if trailing then [0x2F] else [])

/-- What can stand between two slashes. -/
def IsComponent (c : List Byte) : Prop := c ≠ [] ∧ 0x2F ∉ c ∧ 0 ∉ c

section Parts

variable {fuel : Nat} {c rest : List Byte}

theorem pathParts_nil (fuel : Nat) : pathParts fuel [] = [] := by
  cases fuel with
  | zero => rfl
  | succ fuel => rfl

theorem pathParts_slashes (fuel n : Nat) : pathParts fuel (List.replicate n 0x2F) = [] := by
  cases n with
  | zero => exact pathParts_nil fuel
  | succ n => cases fuel <;> rfl

/-- A string in front of the first `a` and behind it. -/
theorem takeWhile_cases (a : Byte) (str : List Byte) :
    (a ∉ str ∧ str.takeWhile (· ≠ a) = str) ∨ (a ∉ str.takeWhile (· ≠ a) ∧
      str = str.takeWhile (· ≠ a) ++ a :: str.drop ((str.takeWhile (· ≠ a)).length + 1)) := by
  induction str with
  | nil => exact .inl ⟨by simp, rfl⟩
  | cons c str ih =>
    by_cases hc : c = a
    · subst hc
      have hnil : (c :: str).takeWhile (· ≠ c) = [] := List.takeWhile_cons_of_neg (by simp)
      rw [hnil]
      exact .inr ⟨by simp, rfl⟩
    · have hcons : (c :: str).takeWhile (· ≠ a) = c :: str.takeWhile (· ≠ a) :=
        List.takeWhile_cons_of_pos (decide_eq_true hc)
      rw [hcons, List.length_cons, List.drop_succ_cons, List.cons_append, List.cons.injEq,
        List.cons.injEq, List.mem_cons, List.mem_cons, not_or, not_or]
      exact ih.imp (fun h => ⟨⟨Ne.symm hc, h.1⟩, rfl, h.2⟩) fun h => ⟨⟨Ne.symm hc, h.1⟩, rfl, h.2⟩

theorem takeWhile_component (hc : 0x2F ∉ c) (rest : List Byte) :
    (c ++ 0x2F :: rest).takeWhile (· ≠ 0x2F) = c := by
  have hall : ∀ a ∈ c, decide (a ≠ (0x2F : Byte)) = true := fun a ha =>
    decide_eq_true fun heq => hc (heq ▸ ha)
  rw [List.takeWhile_append_of_pos hall, List.takeWhile_cons_of_neg (by decide), List.append_nil]

/-- A component in front of a slash. -/
theorem pathParts_cons (hne : c ≠ []) (hc : 0x2F ∉ c) :
    pathParts (fuel + 1) (c ++ 0x2F :: rest) = c :: pathParts fuel rest := by
  have hlen : c.length ≠ (c ++ 0x2F :: rest).length := by
    rw [List.length_append, List.length_cons]
    omega
  have hdrop : (c ++ 0x2F :: rest).drop (c.length + 1) = rest := by
    rw [← List.drop_drop, List.drop_left]
    rfl
  rw [pathParts, takeWhile_component hc]
  rw [if_neg (mt List.length_eq_zero_iff.mp hne), if_neg hlen, hdrop]

/-- The last one. -/
theorem pathParts_last (hne : c ≠ []) (hc : 0x2F ∉ c) : pathParts (fuel + 1) c = [c] := by
  have htake : c.takeWhile (· ≠ (0x2F : Byte)) = c :=
    List.takeWhile_eq_self_iff.mpr fun a ha => decide_eq_true fun heq => hc (heq ▸ ha)
  rw [pathParts, htake]
  rw [if_neg (mt List.length_eq_zero_iff.mp hne), if_pos rfl]

/-- The parser's loop over rendered components, with slashes behind them. -/
theorem pathParts_intercalate {cs : List (List Byte)} (n : Nat)
    (hcs : ∀ c ∈ cs, c ≠ [] ∧ 0x2F ∉ c) (hfuel : ([0x2F].intercalate cs).length ≤ fuel) :
    pathParts fuel ([0x2F].intercalate cs ++ List.replicate n 0x2F) = cs := by
  induction cs generalizing fuel with
  | nil => exact pathParts_slashes fuel n
  | cons c cs ih =>
    obtain ⟨hne, hslash⟩ := hcs c List.mem_cons_self
    have hpos := List.length_pos_iff.mpr hne
    cases cs with
    | nil =>
      rw [List.intercalate_singleton] at hfuel ⊢
      obtain ⟨fuel, rfl⟩ := Nat.exists_eq_add_one_of_ne_zero (show fuel ≠ 0 by omega)
      cases n with
      | zero => rw [List.replicate_zero, List.append_nil, pathParts_last hne hslash]
      | succ n => rw [List.replicate_succ, pathParts_cons hne hslash, pathParts_slashes]
    | cons c' cs =>
      rw [List.intercalate_cons_cons] at hfuel ⊢
      rw [List.length_append, List.length_append, List.length_singleton] at hfuel
      obtain ⟨fuel, rfl⟩ := Nat.exists_eq_add_one_of_ne_zero (show fuel ≠ 0 by omega)
      rw [List.append_assoc, List.append_assoc, List.singleton_append, pathParts_cons hne hslash,
        ih (fun c hc => hcs c (List.mem_cons_of_mem _ hc)) (by omega)]

/-- A rendered path has no NUL. -/
theorem renderPath_ne_zero {cs : List (List Byte)} (hcs : ∀ c ∈ cs, IsComponent c)
    (drive : Fin 10) (trailing : Bool) : ∀ a ∈ renderPath drive cs trailing, a ≠ 0 := by
  have hjoin : ∀ a ∈ [0x2F].intercalate cs, a ≠ (0 : Byte) := by
    clear drive trailing
    induction cs with
    | nil => simp
    | cons c cs ih =>
      have hhead : ∀ a ∈ c, a ≠ (0 : Byte) := fun a ha heq =>
        (hcs c List.mem_cons_self).2.2 (heq ▸ ha)
      cases cs with
      | nil => simpa using hhead
      | cons c' cs =>
        intro a ha
        rw [List.intercalate_cons_cons, List.append_assoc, List.mem_append, List.mem_append,
          List.mem_singleton] at ha
        rcases ha with ha | rfl | ha
        · exact hhead a ha
        · decide
        · exact ih (fun c hc => hcs c (List.mem_cons_of_mem _ hc)) a ha
  have hdrive : ∀ drive : Fin 10, BitVec.ofNat 8 (0x30 + drive) ≠ 0 := by decide
  intro a ha
  rw [renderPath, List.mem_cons, List.mem_cons, List.mem_cons, List.mem_append] at ha
  rcases ha with rfl | rfl | rfl | ha | ha
  · exact hdrive drive
  · decide
  · decide
  · exact hjoin a ha
  · cases trailing with
    | false => cases ha
    | true =>
      obtain rfl := List.mem_singleton.mp ha
      decide

/-- A rendered path is valid and names its drive. -/
theorem renderPath_valid {cs : List (List Byte)} (hcs : ∀ c ∈ cs, IsComponent c) (drive : Fin 10)
    (trailing : Bool) :
    pathparserPathIsValid (renderPath drive cs trailing) = true ∧
      pathparserPathGetDrive (renderPath drive cs trailing) = (drive : Nat) := by
  have hlen := strnlen_eq (renderPath_ne_zero hcs drive trailing) MAX_PATH_LEN
  have hthree : 3 ≤ min MAX_PATH_LEN (renderPath drive cs trailing).length := by
    refine Nat.le_min.mpr ⟨by decide, ?_⟩
    simp only [renderPath, List.length_cons]
    omega
  have hdigit : ∀ drive : Fin 10, isDigit (BitVec.ofNat 8 (0x30 + drive)) = true ∧
      ((BitVec.ofNat 8 (0x30 + drive)).toNat : Int) - 0x30 = (drive : Nat) := by decide
  refine ⟨?_, (hdigit drive).2⟩
  rw [pathparserPathIsValid, hlen, decide_eq_true hthree]
  simp only [renderPath, charAt, List.getD_cons_zero, List.getD_cons_succ, hdigit drive,
    Bool.and_true, beq_self_eq_true]

/-- The parts of a rendered path are its components. -/
theorem partsOf_render {drive : Fin 10} {cs : List (List Byte)} {trailing : Bool}
    (hcs : ∀ c ∈ cs, IsComponent c)
    (hlen : (renderPath drive cs trailing).length ≤ MAX_PATH_LEN) :
    partsOf (renderPath drive cs trailing) = cs := by
  have hn := strnlen_eq (renderPath_ne_zero hcs drive trailing) MAX_PATH_LEN
  rw [Nat.min_eq_right hlen] at hn
  have hfuel : ([0x2F].intercalate cs).length ≤ (renderPath drive cs trailing).length := by
    simp only [renderPath, List.length_cons, List.length_append]
    omega
  have hslashes : (if trailing then [0x2F] else []) =
      List.replicate (if trailing then 1 else 0) (0x2F : Byte) := by
    cases trailing <;> rfl
  rw [partsOf, hn, List.take_length]
  change pathParts _ ([0x2F].intercalate cs ++ if trailing then [0x2F] else []) = cs
  rw [hslashes]
  exact pathParts_intercalate _ (fun c hc => ⟨(hcs c hc).1, (hcs c hc).2.1⟩) hfuel

end Parts

/-- Code that starts with a digit and `:/`. -/
def StartsWithDrive (path : List Byte) : Prop :=
  isDigit (charAt path 0) = true ∧ charAt path 1 = 0x3A ∧ charAt path 2 = 0x2F

/-- A parsed path in memory: the drive and the components, each in a block of its own with a NUL
behind it. -/
def ParsedAs (t : Kernel) (root : Word) (drive : Nat) (cs : List (List Byte)) : Prop :=
  ∃ segs, PathAt t root drive segs ∧ segs.map Seg.name = cs ∧
    ∀ g ∈ segs, ⟨g.string, g.name.length + 1⟩ ∈ t.blocks ∧
      strnlen g.name (g.name.length + 1) = g.name.length

/-- On a heap that grants every request, the parser takes apart what was rendered; and it returns
NULL for everything that does not start with a drive. -/
theorem parse_render {s : Kernel} (hok : s.HeapOk) (hans : ∀ n, s.answers n ≠ 0) :
    (∀ (drive : Fin 10) (cs : List (List Byte)) (trailing : Bool), cs ≠ [] →
      (∀ c ∈ cs, IsComponent c) → (renderPath drive cs trailing).length ≤ MAX_PATH_LEN →
      pathparserPathParse (renderPath drive cs trailing) s ≠ .error .misallocated →
      ∃ root t, pathparserPathParse (renderPath drive cs trailing) s = .ok (root, t) ∧
        root ≠ 0 ∧ ParsedAs t root drive cs) ∧
    ∀ path, ¬ StartsWithDrive path → pathparserPathParse path s = .ok (0, s) := by
  constructor
  · intro drive cs trailing _ hcs hlen hrun
    obtain ⟨root, t, hrun, -, hparsed⟩ :=
      (@pathparserPathParse_does s (· = .misallocated) rfl hok.sizes _
        fun hno => absurd (.of_all hans _ _) hno).returns hrun
    obtain ⟨hvalid, hdrive⟩ := renderPath_valid hcs drive trailing
    obtain ⟨-, hzero, -⟩ | ⟨-, -, segs, hnames, hpath, hgrown⟩ := hparsed hvalid
    · exact absurd hzero (hans _)
    rw [hdrive] at hpath
    rw [partsOf_render hcs hlen] at hnames
    refine ⟨root, t, hrun, hpath.ne_null, segs, hpath, hnames, fun g hg => ⟨?_, ?_⟩⟩
    · refine hgrown.mem_blocks.mpr (.inl (List.mem_append_left _ ?_))
      exact List.mem_flatMap.mpr ⟨g, hg, by simp [Seg.blocks]⟩
    · have hmem : g.name ∈ cs := hnames ▸ List.mem_map_of_mem hg
      have hnul : ∀ a ∈ g.name, a ≠ (0 : Byte) := fun a ha heq => (hcs _ hmem).2.2 (heq ▸ ha)
      rw [strnlen_eq hnul, Nat.min_eq_right (Nat.le_succ _)]
  · intro path hno
    have hvalid : pathparserPathIsValid path = false := by
      by_contra h
      simp only [pathparserPathIsValid, Bool.not_eq_false, Bool.and_eq_true, beq_iff_eq] at h
      exact hno ⟨h.1.1.2, h.1.2, h.2⟩
    rw [pathparserPathParse, hvalid]
    rfl

/-- A kernel with nothing on its heap. -/
def emptyHeap : Kernel :=
  Kernel.blank ⟨0, 0, 0, 0xC0130000, 0, 0⟩
    (fun n => BitVec.ofNat 32 (0xC0200000 + 0x1000 * (n % 0x1000))) (fun _ => none) fun _ => none

/-- Two components and a trailing slash, and a path without a drive. -/
theorem parse_render_two_components :
    (∃ root t, pathparserPathParse (ascii "3:/BIN/A.ELF/") emptyHeap = .ok (root, t) ∧ root ≠ 0 ∧
      ParsedAs t root 3 [ascii "BIN", ascii "A.ELF"]) ∧
    pathparserPathParse (ascii "BIN/A.ELF") emptyHeap = .ok (0, emptyHeap) := by
  have hans : ∀ n, emptyHeap.answers n ≠ 0 := fun n h => by
    have hnat : (0xC0200000 + 0x1000 * (n % 0x1000)) % 2 ^ 32 = 0 := congrArg BitVec.toNat h
    omega
  have hok : emptyHeap.HeapOk := ⟨by simp [emptyHeap, Kernel.blank], .nil⟩
  have hrun : pathparserPathParse (ascii "3:/BIN/A.ELF/") emptyHeap ≠ .error .misallocated := by
    intro h
    have hno : (pathparserPathParse (ascii "3:/BIN/A.ELF/") emptyHeap).toOption.isSome = true := by
      decide +kernel
    rw [h] at hno
    cases hno
  obtain ⟨hparse, hnull⟩ := parse_render hok hans
  refine ⟨?_, hnull _ fun h => absurd h.1 (by decide)⟩
  exact hparse 3 [ascii "BIN", ascii "A.ELF"] true (by decide)
    (by unfold IsComponent; decide) (by decide) hrun

/-! ## Splitting a component -/

/-- The arrays of `traverse_path` for the two parts of a name. -/
inductive NameArray where
  | filename
  | extension
  deriving DecidableEq

def NameArray.size : NameArray → Nat
  | .filename => 8
  | .extension => 3

/-- `array[index] = byte`. -/
structure NameWrite where
  array : NameArray
  index : Nat
  byte : Byte
  deriving DecidableEq

/-- The writes of a `memcpy` of the whole of `src`, or of a `memset`. -/
def NameArray.copy (array : NameArray) (src : List Byte) : List NameWrite :=
  src.mapIdx fun i c => ⟨array, i, c⟩

theorem NameArray.copy_nil (array : NameArray) : array.copy [] = [] := rfl

/-- `fat16_split_entry_name`: what it writes, in order. -/
def splitEntryNameWrites (name : List Byte) : List NameWrite :=
  let len := strnlen name 12
  let spaces := NameArray.filename.copy (List.replicate 8 0x20) ++
    NameArray.extension.copy (List.replicate 3 0x20)
  match memchr name 0x2E len with
  | none => spaces ++ NameArray.filename.copy (name.take len)
  | some point => spaces ++ (NameArray.filename.copy (name.take point) ++
      NameArray.extension.copy ((name.drop (point + 1)).take (len - point - 1)))

/-- The memory of the arrays after some writes. -/
def runWrites (m : NameArray → Nat → Byte) (writes : List NameWrite) : NameArray → Nat → Byte :=
  writes.foldl (fun m w array i => if array = w.array ∧ i = w.index then w.byte else m array i) m

/-- What an array holds then. -/
def NameArray.contents (array : NameArray) (m : NameArray → Nat → Byte) (writes : List NameWrite) :
    List Byte :=
  (List.range array.size).map (runWrites m writes array)

section Split

variable {m : NameArray → Nat → Byte} {array : NameArray} {src : List Byte} {i : Nat}

theorem runWrites_append (w₁ w₂ : List NameWrite) :
    runWrites m (w₁ ++ w₂) = runWrites (runWrites m w₁) w₂ := List.foldl_append

theorem runWrites_copy (array : NameArray) (src : List Byte) :
    runWrites m (array.copy src) = fun a i => if a = array then src.getD i (m a i) else m a i := by
  induction src using List.reverseRecOn with
  | nil =>
    funext a i
    simp [NameArray.copy, runWrites]
  | append_singleton src c ih =>
    rw [NameArray.copy, List.mapIdx_concat, runWrites_append]
    rw [NameArray.copy] at ih
    rw [ih]
    funext a i
    simp only [runWrites, List.foldl_cons, List.foldl_nil]
    by_cases ha : a = array
    · rcases Nat.lt_trichotomy i src.length with hi | rfl | hi
      · simp only [ha, Nat.ne_of_lt hi, and_false, if_false, if_true, List.getD_append _ _ _ _ hi]
      · simp [ha]
      · simp only [ha, Nat.ne_of_gt hi, and_false, if_false, if_true]
        rw [List.getD_eq_default _ _ (Nat.le_of_lt hi), List.getD_eq_default]
        rw [List.length_append, List.length_singleton]
        exact hi
    · simp [ha]

/-- A copy stays in its array exactly if the array is large enough. -/
theorem copy_inside_iff : (∀ w ∈ array.copy src, w.index < w.array.size) ↔ src.length ≤ array.size := by
  constructor
  · intro h
    by_contra hlt
    have hi : array.size < src.length := by omega
    have := h ⟨array, array.size, src.get ⟨_, hi⟩⟩ (List.mem_mapIdx.mpr ⟨_, hi, rfl⟩)
    exact Nat.lt_irrefl _ this
  · rintro h w hw
    obtain ⟨i, hi, rfl⟩ := List.mem_mapIdx.mp hw
    exact Nat.lt_of_lt_of_le hi h

/-- The part of a name in front of its first point, and the one behind it. -/
def beforePoint (name : List Byte) : List Byte := name.takeWhile (· ≠ 0x2E)
def afterPoint (name : List Byte) : List Byte := name.drop ((beforePoint name).length + 1)

variable {name path : List Byte}

theorem point_cases (name : List Byte) : (0x2E ∉ name ∧ beforePoint name = name) ∨
    (0x2E ∉ beforePoint name ∧ name = beforePoint name ++ 0x2E :: afterPoint name) :=
  takeWhile_cases 0x2E name

/-- What is copied of a name: of the first twelve characters, those in front of the point and those
behind it. -/
theorem splitEntryNameWrites_eq (hnul : ∀ c ∈ name, c ≠ 0) :
    splitEntryNameWrites name = NameArray.filename.copy (List.replicate 8 0x20) ++
      NameArray.extension.copy (List.replicate 3 0x20) ++
      (NameArray.filename.copy ((beforePoint name).take 12) ++
        NameArray.extension.copy ((afterPoint name).take (11 - (beforePoint name).length))) := by
  have hlen := strnlen_eq hnul 12
  have htake : name.take (min 12 name.length) = name.take 12 := by
    rw [← List.take_take, List.take_length]
  rw [splitEntryNameWrites, hlen]
  rcases point_cases name with ⟨hno, hbefore⟩ | ⟨hno, hsplit⟩
  · have hafter : afterPoint name = [] := by
      rw [afterPoint, hbefore, List.drop_eq_nil_of_le (Nat.le_succ _)]
    simp only [memchr_none hno, htake, hbefore, hafter, List.take_nil, NameArray.copy_nil,
      List.append_nil]
  · generalize beforePoint name = before at hno hsplit
    generalize afterPoint name = rest at hsplit
    subst hsplit
    have hmin : before.length < min 12 (before ++ 0x2E :: rest).length ↔ before.length < 12 := by
      rw [List.length_append, List.length_cons]
      omega
    by_cases hlt : before.length < 12
    · have hrest : (rest.take (min 12 (before ++ 0x2E :: rest).length - before.length - 1)) =
          rest.take (11 - before.length) := by
        rw [List.length_append, List.length_cons,
          show min 12 (before.length + (rest.length + 1)) - before.length - 1 =
            min (11 - before.length) rest.length by omega, ← List.take_take, List.take_length]
      have hdrop : (before ++ 0x2E :: rest).drop (before.length + 1) = rest := by
        rw [← List.drop_drop, List.drop_left]
        rfl
      simp only [memchr_append hno, if_pos (hmin.mpr hlt), List.take_left', hdrop, hrest,
        List.take_of_length_le (Nat.le_of_lt hlt)]
    · have hzero : 11 - before.length = 0 := by omega
      simp only [memchr_append hno, if_neg (mt hmin.mp hlt), htake, hzero, List.take_zero,
        List.take_append_of_le_length (Nat.le_of_not_lt hlt), NameArray.copy_nil, List.append_nil]

/-- A string with spaces behind it. -/
def spacePadded (str : List Byte) (n : Nat) : List Byte := str ++ List.replicate (n - str.length) 0x20

theorem map_range_getD {n : Nat} (h : src.length ≤ n) :
    ((List.range n).map fun i => src.getD i 0x20) = spacePadded src n := by
  refine List.ext_getElem ?_ fun i h₁ h₂ => ?_
  · rw [spacePadded, List.length_append, List.length_map, List.length_range, List.length_replicate]
    omega
  · rw [List.getElem_map, List.getElem_range]
    rcases Nat.lt_or_ge i src.length with hi | hi
    · rw [List.getD_eq_getElem _ _ hi]
      simp [spacePadded, List.getElem_append_left hi]
    · rw [List.getD_eq_default _ _ hi]
      simp [spacePadded, List.getElem_append_right hi]

/-- The arrays afterwards, if nothing is written behind their ends. -/
theorem contents_eq (hnul : ∀ c ∈ name, c ≠ 0) (m : NameArray → Nat → Byte)
    (hf : ((beforePoint name).take 12).length ≤ 8)
    (he : ((afterPoint name).take (11 - (beforePoint name).length)).length ≤ 3) :
    NameArray.filename.contents m (splitEntryNameWrites name) =
        spacePadded ((beforePoint name).take 12) 8 ∧
      NameArray.extension.contents m (splitEntryNameWrites name) =
        spacePadded ((afterPoint name).take (11 - (beforePoint name).length)) 3 := by
  have hspace : ∀ n i : Nat, i < n → ∀ c : Byte, (List.replicate n (0x20 : Byte)).getD i c = 0x20 := by
    intro n i hi c
    rw [List.getD_eq_getElem _ _ (by simpa using hi), List.getElem_replicate]
  rw [splitEntryNameWrites_eq hnul, ← map_range_getD hf, ← map_range_getD he]
  generalize (beforePoint name).take 12 = f
  generalize (afterPoint name).take (11 - (beforePoint name).length) = e
  unfold NameArray.contents
  simp only [runWrites_append, runWrites_copy]
  constructor
  · refine List.map_congr_left fun i hi => ?_
    have := hspace 8 i (List.mem_range.mp hi) (m .filename i)
    simp only [reduceCtorEq, if_false, if_true, this]
  · refine List.map_congr_left fun i hi => ?_
    have := hspace 3 i (List.mem_range.mp hi) (m .extension i)
    simp only [reduceCtorEq, if_false, if_true, this]

/-- Nothing is written behind the ends of the arrays exactly for these names. -/
theorem writes_inside_iff (hnul : ∀ c ∈ name, c ≠ 0) :
    (∀ w ∈ splitEntryNameWrites name, w.index < w.array.size) ↔
      (beforePoint name).length ≤ 8 ∧
        ((afterPoint name).length ≤ 3 ∨ (beforePoint name).length = 8) := by
  rw [splitEntryNameWrites_eq hnul, List.forall_mem_append, List.forall_mem_append,
    List.forall_mem_append]
  simp only [copy_inside_iff]
  simp only [NameArray.size, List.length_take, List.length_replicate]
  omega

/-! The components of a path have no NUL. -/

theorem mem_of_mem_pathParts {fuel : Nat} {rest : List Byte} (h : name ∈ pathParts fuel rest) :
    ∀ c ∈ name, c ∈ rest := by
  induction fuel generalizing rest with
  | zero => cases h
  | succ fuel ih =>
    intro c hc
    rw [pathParts] at h
    have hpart : ∀ a ∈ rest.takeWhile (· ≠ (0x2F : Byte)), a ∈ rest := fun a ha =>
      (List.takeWhile_prefix _).subset ha
    split at h
    · cases h
    split at h
    · rw [List.mem_singleton.mp h] at hc
      exact hpart c hc
    · rcases List.mem_cons.mp h with rfl | h
      · exact hpart c hc
      · exact List.mem_of_mem_drop (ih h c hc)

theorem partsOf_ne_zero (h : name ∈ partsOf path) : ∀ c ∈ name, c ≠ 0 := by
  intro c hc
  have hmem := List.mem_of_mem_drop (mem_of_mem_pathParts h c hc)
  obtain ⟨i, hi, rfl⟩ := List.mem_iff_getElem.mp hmem
  rw [List.length_take] at hi
  have hne := @charAt_ne_zero_of_lt_strnlen path MAX_PATH_LEN i (by omega)
  rwa [charAt, List.getD_eq_getElem _ _ (by omega), ← List.getElem_take] at hne

/-- `fat16_split_entry_name` writes only to its arrays, and of a name within 8.3 they hold the two
parts, padded with spaces. -/
structure SplitsInside (name : List Byte) : Prop where
  inside : ∀ w ∈ splitEntryNameWrites name, w.index < w.array.size
  outputs : (beforePoint name).length ≤ 8 → (afterPoint name).length ≤ 3 → ∀ m,
    NameArray.filename.contents m (splitEntryNameWrites name) = spacePadded (beforePoint name) 8 ∧
      NameArray.extension.contents m (splitEntryNameWrites name) = spacePadded (afterPoint name) 3

/-- A component is split inside the arrays, if and only if at most eight characters stand in front
of its first point, and at most three behind it or exactly eight in front of it. -/
theorem splitsInside_iff (h : name ∈ partsOf path) : SplitsInside name ↔
    (beforePoint name).length ≤ 8 ∧
      ((afterPoint name).length ≤ 3 ∨ (beforePoint name).length = 8) := by
  have hnul := partsOf_ne_zero h
  refine ⟨fun hs => (writes_inside_iff hnul).mp hs.inside, fun hc => ?_⟩
  refine ⟨(writes_inside_iff hnul).mpr hc, fun hb ha m => ?_⟩
  have hbefore : (beforePoint name).take 12 = beforePoint name :=
    List.take_of_length_le (by omega)
  have hafter : (afterPoint name).take (11 - (beforePoint name).length) = afterPoint name :=
    List.take_of_length_le (by omega)
  have hcontents := contents_eq hnul m (by rw [hbefore]; exact hb) (by rw [hafter]; exact ha)
  rwa [hbefore, hafter] at hcontents

/-- The model of `fat16_split_entry_name` that `traverse_path` uses returns the arrays, or faults
where a write is behind their ends. -/
theorem fat16SplitEntryName_writes (hnul : ∀ c ∈ name, c ≠ 0) (m : NameArray → Nat → Byte)
    (s : Kernel) :
    ((∀ w ∈ splitEntryNameWrites name, w.index < w.array.size) →
      fat16SplitEntryName name s = .ok ((NameArray.filename.contents m (splitEntryNameWrites name),
        NameArray.extension.contents m (splitEntryNameWrites name)), s)) ∧
    (¬ (∀ w ∈ splitEntryNameWrites name, w.index < w.array.size) →
      fat16SplitEntryName name s = .error .outOfBounds) := by
  have htake : name.take (strnlen name 12) = name.take 12 := by
    rw [strnlen_eq hnul, ← List.take_take, List.take_length]
  have hpoint : (name.take 12).findIdx (· = 0x2E) = ((beforePoint name).take 12).length := by
    rw [beforePoint, List.take_takeWhile, List.takeWhile_eq_take_findIdx_not, List.length_take,
      Nat.min_eq_left List.findIdx_le_length]
    congr 1
    funext c
    by_cases hc : c = 0x2E <;> simp [hc]
  have hfilename : name.take ((beforePoint name).take 12).length = (beforePoint name).take 12 := by
    have hpre : (beforePoint name).take 12 <+: name :=
      (List.take_prefix _ _).trans (List.takeWhile_prefix _)
    exact (List.prefix_iff_eq_take.mp hpre).symm
  have hextension : (name.take 12).drop (((beforePoint name).take 12).length + 1) =
      (afterPoint name).take (11 - (beforePoint name).length) := by
    rw [List.drop_take, List.length_take, afterPoint]
    rcases Nat.lt_or_ge (beforePoint name).length 12 with hlt | hge
    · rw [Nat.min_eq_right (Nat.le_of_lt hlt)]
      congr 1
      omega
    · rw [show 12 - (min 12 (beforePoint name).length + 1) = 0 by omega,
        show 11 - (beforePoint name).length = 0 by omega, List.take_zero, List.take_zero]
  have hiff : (∀ w ∈ splitEntryNameWrites name, w.index < w.array.size) ↔
      ((beforePoint name).take 12).length ≤ 8 ∧
        ((afterPoint name).take (11 - (beforePoint name).length)).length ≤ 3 := by
    rw [writes_inside_iff hnul, List.length_take, List.length_take]
    omega
  rw [hiff, fat16SplitEntryName]
  dsimp only
  rw [htake, hpoint, hfilename, hextension]
  constructor
  · intro h
    obtain ⟨hf, he⟩ := contents_eq hnul m h.1 h.2
    rw [if_pos h, hf, he]
    rfl
  · intro h
    rw [if_neg h]

/-- An 8.3 name. -/
theorem splitsInside_iff_kernel : SplitsInside (ascii "KERNEL.ELF") :=
  (@splitsInside_iff _ (ascii "0:/KERNEL.ELF") (by decide)).mpr (by decide)

/-- A name of nine characters is copied over the end of the array. -/
theorem long_name_written_outside :
    ¬ ∀ path name : List Byte, name ∈ partsOf path → SplitsInside name := by
  intro h
  have hinside := (h (ascii "0:/LONGNAMES") (ascii "LONGNAMES") (by decide)).inside
  have hout : (⟨.filename, 8, 0x53⟩ : NameWrite) ∈ splitEntryNameWrites (ascii "LONGNAMES") := by
    decide
  exact absurd (hinside _ hout) (by decide)

end Split

end AvocadOS
