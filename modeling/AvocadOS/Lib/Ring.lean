import Mathlib.Data.List.Chain
import Mathlib.Data.List.Nodup
import Mathlib.Logic.Function.Basic

/-!
# Circular doubly linked lists

The links of a set of nodes are two partial functions `next` and `prev`. `LinkRing next prev a l`: from
`a`, following `next` visits the nodes `l` in order and comes back to `a`; `prev` goes the other
way; no node is visited twice.

* `Splice`: a node is linked in, everything else is as before;
* `LinkRing.rotate`: the same ring from the next node;
* `LinkRing.rotateTo`: from any node of it;
* `LinkRing.insert`, `LinkRing.snoc`: a new node behind `a`, or in front of it;
* `Unsplice`, `LinkRing.remove`: a node is taken out;
* `LinkRing.map`: the nodes of a ring are renamed;
* `LinkRing.transport`: links outside the ring do not matter.
-/

variable {α : Type} {next prev next' prev' : α → Option α}

/-- `b` follows `a`. -/
def Link (next prev : α → Option α) (a b : α) : Prop := next a = some b ∧ prev b = some a

theorem links_transport {m : List α} (h : m.IsChain (Link next prev))
    (hn : ∀ u ∈ m.dropLast, next' u = next u) (hp : ∀ v ∈ m.tail, prev' v = prev v) :
    m.IsChain (Link next' prev') := by
  induction m with
  | nil => exact .nil
  | cons u m ih =>
    cases m with
    | nil => exact .singleton u
    | cons v m =>
      obtain ⟨⟨h₁, h₂⟩, hrest⟩ := List.isChain_cons_cons.mp h
      refine List.isChain_cons_cons.mpr ⟨⟨?_, ?_⟩, ih hrest (fun w hw => hn w ?_) fun w hw => hp w ?_⟩
      · rw [hn u (by simp), h₁]
      · rw [hp v (by simp), h₂]
      · exact List.mem_cons_of_mem _ hw
      · exact List.mem_of_mem_tail hw

/-- A new node between the neighbours `z` and `d`. -/
theorem links_insert {pre post : List α} {z d x : α}
    (h : (pre ++ z :: d :: post).IsChain (Link next prev))
    (hz : next' z = some x) (hx : prev' x = some z) (hx' : next' x = some d)
    (hd : prev' d = some x)
    (hn : ∀ u, u ∈ pre ∨ u ∈ (d :: post).dropLast → next' u = next u)
    (hp : ∀ v, v ∈ (pre ++ [z]).tail ∨ v ∈ post → prev' v = prev v) :
    (pre ++ z :: x :: d :: post).IsChain (Link next' prev') := by
  rw [List.isChain_split] at h ⊢
  obtain ⟨hpre, hpost⟩ := h
  have hpost := (List.isChain_cons_cons.mp hpost).2
  refine ⟨links_transport hpre (fun u hu => hn u (.inl ?_)) fun v hv => hp v (.inl hv), ?_⟩
  · simpa using hu
  · refine List.isChain_cons_cons.mpr ⟨⟨hz, hx⟩, List.isChain_cons_cons.mpr ⟨⟨hx', hd⟩, ?_⟩⟩
    exact links_transport hpost (fun u hu => hn u (.inr hu)) fun v hv => hp v (.inr (by simpa using hv))

/-- The node `x` is linked in between `p` and `n`; the other links are as before. -/
structure Splice (next prev next' prev' : α → Option α) (p x n : α) : Prop where
  next_left : next' p = some x
  prev_new : prev' x = some p
  next_new : next' x = some n
  prev_right : prev' n = some x
  next_frame : ∀ u, u ≠ p → u ≠ x → next' u = next u
  prev_frame : ∀ v, v ≠ n → v ≠ x → prev' v = prev v

/-- The four writes that link a node in. -/
theorem Splice.of_updates [DecidableEq α] {p x n : α} (hp : p ≠ x) (hn : n ≠ x) :
    Splice next prev (Function.update (Function.update next x (some n)) p (some x))
      (Function.update (Function.update prev x (some p)) n (some x)) p x n where
  next_left := by simp
  prev_new := by simp [hn.symm]
  next_new := by simp [hp.symm]
  prev_right := by simp
  next_frame u hu hu' := by simp [hu, hu']
  prev_frame v hv hv' := by simp [hv, hv']

/-- The links that the new node had before do not matter. -/
theorem Splice.of_eq {next₀ prev₀ : α → Option α} {p x n : α} (h : Splice next prev next' prev' p x n)
    (hn : ∀ u, u ≠ x → next u = next₀ u) (hp : ∀ u, u ≠ x → prev u = prev₀ u) :
    Splice next₀ prev₀ next' prev' p x n :=
  { h with
    next_frame := fun u hu hu' => (h.next_frame u hu hu').trans (hn u hu')
    prev_frame := fun v hv hv' => (h.prev_frame v hv hv').trans (hp v hv') }

/-- The node `x` is taken out from between `p` and `n`; the links of the others are as before. -/
structure Unsplice (next prev next' prev' : α → Option α) (p x n : α) : Prop where
  next_left : next' p = some n
  prev_right : prev' n = some p
  next_frame : ∀ u, u ≠ p → u ≠ x → next' u = next u
  prev_frame : ∀ v, v ≠ n → v ≠ x → prev' v = prev v

structure LinkRing (next prev : α → Option α) (a : α) (l : List α) : Prop where
  nodup : (a :: l).Nodup
  links : (a :: (l ++ [a])).IsChain (Link next prev)

namespace LinkRing

variable {a : α} {l : List α}

theorem singleton (hn : next a = some a) (hp : prev a = some a) : LinkRing next prev a [] :=
  ⟨by simp, List.isChain_pair.mpr ⟨hn, hp⟩⟩

/-- What follows the first node. -/
theorem link_head (h : LinkRing next prev a l) : ∃ d post, l ++ [a] = d :: post ∧ Link next prev a d := by
  obtain ⟨d, post, hd⟩ := List.exists_cons_of_ne_nil (show l ++ [a] ≠ [] by simp)
  have hlinks := h.links
  rw [hd] at hlinks
  exact ⟨d, post, hd, (List.isChain_cons_cons.mp hlinks).1⟩

theorem next_cons {b : α} (h : LinkRing next prev a (b :: l)) : next a = some b :=
  (List.isChain_cons_cons.mp h.links).1.1

theorem next_nil (h : LinkRing next prev a []) : next a = some a :=
  (List.isChain_cons_cons.mp h.links).1.1

/-- Neighbours in the list of nodes. -/
theorem next_inner {u v : α} {p q : List α} (h : LinkRing next prev a l)
    (hl : a :: l = p ++ u :: v :: q) : next u = some v := by
  have hlinks := h.links
  rw [← List.cons_append, hl, List.append_assoc] at hlinks
  exact (List.isChain_append_cons_cons.mp hlinks).2.1.1

theorem ne_of_inner {u v : α} {p q : List α} (h : LinkRing next prev a l)
    (hl : a :: l = p ++ u :: v :: q) : a ≠ v := by
  rintro rfl
  have hmem : a ∈ l := by
    cases p with
    | nil => simp [(List.cons.inj hl).2]
    | cons w p => simp [(List.cons.inj hl).2]
  exact (List.nodup_cons.mp h.nodup).1 hmem

/-- The last node is in front of the first. -/
theorem link_last {z : α} {pre : List α} (h : LinkRing next prev a l) (hz : a :: l = pre ++ [z]) :
    Link next prev z a := by
  have hlinks := h.links
  rw [← List.cons_append, hz, List.append_assoc] at hlinks
  exact (List.isChain_append_cons_cons.mp hlinks).2.1

theorem prev_head (h : LinkRing next prev a l) : ∃ z ∈ a :: l, prev a = some z := by
  obtain ⟨pre, z, hpre⟩ := (List.eq_nil_or_concat (a :: l)).resolve_left (by simp)
  rw [List.concat_eq_append] at hpre
  exact ⟨z, by simp [hpre], (h.link_last hpre).2⟩

theorem rotate {b : α} (h : LinkRing next prev a (b :: l)) : LinkRing next prev b (l ++ [a]) := by
  have hlinks := h.links
  obtain ⟨hab, hrest⟩ := List.isChain_cons_cons.mp hlinks
  refine ⟨?_, ?_⟩
  · have hperm : (b :: (l ++ [a])).Perm (a :: b :: l) :=
      (List.Perm.cons b List.perm_append_comm).trans (List.Perm.swap a b l)
    exact hperm.nodup_iff.mpr h.nodup
  · rw [List.append_assoc, ← List.cons_append]
    exact List.isChain_append_cons_cons.mpr ⟨hrest, hab, .singleton b⟩

theorem transport (h : LinkRing next prev a l) (hn : ∀ u ∈ a :: l, next' u = next u)
    (hp : ∀ v ∈ a :: l, prev' v = prev v) : LinkRing next' prev' a l := by
  refine ⟨h.nodup, links_transport h.links (fun u hu => hn u ?_) fun v hv => hp v ?_⟩
  · simpa [List.dropLast_cons_of_ne_nil] using hu
  · simpa [or_comm] using hv

/-- A new node `x` behind the first one. -/
theorem insert {d x : α} (h : LinkRing next prev a l) (hd : next a = some d) (hx : x ∉ a :: l)
    (hs : Splice next prev next' prev' a x d) : LinkRing next' prev' a (x :: l) := by
  obtain ⟨ha, hxp, hxn, hdp, hn, hp⟩ := hs
  obtain ⟨d', post, heq, hlink⟩ := h.link_head
  obtain rfl : d' = d := Option.some.inj (hlink.1.symm.trans hd)
  have hl : (d' :: post).dropLast = l := by rw [← heq, List.dropLast_concat]
  refine ⟨?_, ?_⟩
  · have := h.nodup
    simp only [List.nodup_cons, List.mem_cons, not_or] at this hx ⊢
    exact ⟨⟨Ne.symm hx.1, this.1⟩, hx.2, this.2⟩
  · have hlinks := h.links
    rw [heq] at hlinks
    have hins := @links_insert α next prev next' prev' [] post a d' x hlinks ha hxp hxn hdp ?_ ?_
    · rw [List.cons_append, heq]
      exact hins
    · rintro u (hu | hu)
      · simp at hu
      · rw [hl] at hu
        refine hn u ?_ ?_
        · rintro rfl; exact (List.nodup_cons.mp h.nodup).1 hu
        · rintro rfl; exact hx (List.mem_cons_of_mem _ hu)
    · rintro v (hv | hv)
      · simp at hv
      · -- `d` occurs once in `l ++ [a]`
        have hnd : (d' :: post).Nodup := by
          rw [← heq]; exact (List.perm_append_comm.nodup_iff).mp h.nodup
        refine hp v ?_ ?_
        · rintro rfl; exact (List.nodup_cons.mp hnd).1 hv
        · rintro rfl
          have : v ∈ l ++ [a] := by rw [heq]; exact List.mem_cons_of_mem _ hv
          exact hx (by simpa [or_comm] using this)

/-- A new node `x` in front of the first one. -/
theorem snoc {z x : α} (h : LinkRing next prev a l) (hz : prev a = some z) (hx : x ∉ a :: l)
    (hs : Splice next prev next' prev' z x a) : LinkRing next' prev' a (l ++ [x]) := by
  obtain ⟨hzn, hxp, hxn, hap, hn, hp⟩ := hs
  obtain ⟨pre, z', hpre⟩ := (List.eq_nil_or_concat (a :: l)).resolve_left (by simp)
  rw [List.concat_eq_append] at hpre
  obtain rfl : z' = z := Option.some.inj ((h.link_last hpre).2.symm.trans hz)
  have hnd := h.nodup
  refine ⟨?_, ?_⟩
  · rw [← List.cons_append, List.nodup_append]
    refine ⟨hnd, by simp, fun u hu v hv => ?_⟩
    rintro rfl
    rw [List.mem_singleton.mp hv] at hu
    exact hx hu
  · have hlinks := h.links
    rw [← List.cons_append, hpre, List.append_assoc] at hlinks
    have hins := @links_insert α next prev next' prev' pre [] z' a x hlinks hzn hxp hxn hap ?_ ?_
    · rw [List.append_assoc, ← List.cons_append, hpre, List.append_assoc]
      exact hins
    · rintro u (hu | hu)
      · refine hn u ?_ ?_
        · rintro rfl
          rw [hpre] at hnd
          exact (List.nodup_append.mp hnd).2.2 u hu u (by simp) rfl
        · rintro rfl
          exact hx (by rw [hpre]; exact List.mem_append_left _ hu)
      · simp at hu
    · rintro v (hv | hv)
      · rw [← hpre, List.tail_cons] at hv
        refine hp v ?_ ?_
        · rintro rfl; exact (List.nodup_cons.mp hnd).1 hv
        · rintro rfl; exact hx (List.mem_cons_of_mem _ hv)
      · simp at hv

/-- `prev` is the inverse of `next` on the ring. -/
theorem next_mem {u : α} (h : LinkRing next prev a l) (hu : u ∈ a :: l) :
    ∃ v ∈ a :: l, next u = some v ∧ prev v = some u := by
  obtain ⟨p, q, hpq⟩ := List.append_of_mem hu
  have hlinks := h.links
  rw [← List.cons_append, hpq, List.append_assoc, List.cons_append] at hlinks
  obtain ⟨d, post, hd⟩ := List.exists_cons_of_ne_nil (show q ++ [a] ≠ [] by simp)
  rw [hd] at hlinks
  obtain ⟨h₁, h₂⟩ := (List.isChain_append_cons_cons.mp hlinks).2.1
  refine ⟨d, ?_, h₁, h₂⟩
  have hmem : d ∈ q ++ [a] := by rw [hd]; exact List.mem_cons_self
  rcases List.mem_append.mp hmem with hmem | hmem
  · rw [hpq]; simp [hmem]
  · simp only [List.mem_singleton] at hmem
    simp [hmem]

theorem rotateTo {b : α} {p q : List α} (h : LinkRing next prev a (p ++ b :: q)) :
    LinkRing next prev b (q ++ a :: p) := by
  induction p generalizing a q with
  | nil => exact h.rotate
  | cons c p ih =>
    have hrot : LinkRing next prev c (p ++ b :: q ++ [a]) := h.rotate
    rw [List.append_assoc, List.cons_append] at hrot
    have hback := ih hrot
    rw [List.append_assoc] at hback
    exact hback

/-- A ring with a node that follows itself has no other node. -/
theorem eq_nil_of_next_self (h : LinkRing next prev a l) (ha : next a = some a) : l = [] := by
  cases l with
  | nil => rfl
  | cons b l =>
    obtain rfl : b = a := Option.some.inj (h.next_cons.symm.trans ha)
    exact absurd List.mem_cons_self (List.nodup_cons.mp h.nodup).1

theorem eq_nil_of_prev_self (h : LinkRing next prev a l) (ha : prev a = some a) : l = [] := by
  obtain ⟨pre, z, hpre⟩ := (List.eq_nil_or_concat (a :: l)).resolve_left (by simp)
  rw [List.concat_eq_append] at hpre
  obtain rfl : z = a := Option.some.inj ((h.link_last hpre).2.symm.trans ha)
  exact h.eq_nil_of_next_self (h.link_last hpre).1

/-- The second node becomes the first. -/
theorem tail {b z : α} (h : LinkRing next prev a (b :: l)) (hz : prev a = some z)
    (hs : Unsplice next prev next' prev' z a b) : LinkRing next' prev' b l := by
  obtain ⟨hzn, hbp, hn, hp⟩ := hs
  obtain ⟨pre, z', hpre⟩ := (List.eq_nil_or_concat (b :: l)).resolve_left (by simp)
  rw [List.concat_eq_append] at hpre
  have hlast : a :: b :: l = (a :: pre) ++ [z'] := by rw [hpre, List.cons_append]
  obtain rfl : z' = z := Option.some.inj ((h.link_last hlast).2.symm.trans hz)
  obtain ⟨ha, hnd⟩ := List.nodup_cons.mp h.nodup
  refine ⟨hnd, ?_⟩
  rw [← List.cons_append, hpre, List.append_assoc]
  refine List.isChain_split.mpr ⟨?_, List.isChain_pair.mpr ⟨hzn, hbp⟩⟩
  have hlinks := h.links
  rw [← List.cons_append, hlast, List.append_assoc] at hlinks
  refine links_transport (List.isChain_split.mp hlinks).1.tail (fun u hu => ?_) fun v hv => ?_
  · rw [List.dropLast_concat] at hu
    refine hn u ?_ ?_
    · rintro rfl
      rw [hpre] at hnd
      exact (List.nodup_append.mp hnd).2.2 u hu u (by simp) rfl
    · rintro rfl
      exact ha (by rw [hpre]; exact List.mem_append_left _ hu)
  · have hv : v ∈ l := by
      have : (pre ++ [z']).tail = l := by rw [← hpre, List.tail_cons]
      rw [← this]
      exact hv
    refine hp v ?_ ?_
    · rintro rfl
      exact (List.nodup_cons.mp hnd).1 hv
    · rintro rfl
      exact ha (List.mem_cons_of_mem _ hv)

/-- A node that is not the first is taken out. -/
theorem remove {x p n : α} {l₁ l₂ : List α} (h : LinkRing next prev a (l₁ ++ x :: l₂))
    (hp : prev x = some p) (hn : next x = some n) (hs : Unsplice next prev next' prev' p x n) :
    LinkRing next' prev' a (l₁ ++ l₂) := by
  have hrot := h.rotateTo
  cases l₂ with
  | nil =>
    obtain rfl : a = n := Option.some.inj (hrot.next_cons.symm.trans hn)
    rw [List.append_nil]
    exact hrot.tail hp hs
  | cons b l₂ =>
    obtain rfl : b = n := Option.some.inj (hrot.next_cons.symm.trans hn)
    exact (hrot.tail hp hs).rotateTo

/-- If the links of renamed nodes are renamed, so is the ring. -/
theorem map {f : α → α} (h : LinkRing next prev a l) (hf : Function.Injective f)
    (hlink : ∀ u ∈ a :: l, ∀ v, Link next prev u v → Link next' prev' (f u) (f v)) :
    LinkRing next' prev' (f a) (l.map f) := by
  refine ⟨?_, ?_⟩
  · rw [← List.map_cons]
    exact h.nodup.map hf
  · have heq : f a :: (l.map f ++ [f a]) = (a :: (l ++ [a])).map f := by simp
    rw [heq, List.isChain_map]
    refine h.links.imp_of_mem_imp fun u v hu _ huv => hlink u ?_ v huv
    simpa [or_comm, or_assoc] using hu

end LinkRing
