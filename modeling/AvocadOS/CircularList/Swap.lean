import AvocadOS.CircularList.Refine
import Mathlib.Logic.Equiv.Basic

/-!
# `swap` of two nodes

`swap` writes `n1->prev->next` and `n2->next->prev` before it tests whether the nodes are
neighbours. If `*n2` is directly in front of `*n1`, these are `n2->next` and `n1->prev`, so the test no
longer sees it, and at the end `n1->next` is `*n1` itself.

* `link_apart`, `link_adjacent`: which writes exchange two nodes, for `next` and for `prev`;
* `swap_links`: what `swap` does to the links if `*n2` is not in front of `*n1`;
* `swap_next_self`: what it does if it is;
* `swap_correct_iff`: the two together, with the second swap that undoes the first.
-/

namespace AvocadOS

section

variable {f g f' : Word → Option Word} {a b p m q : Word}

/-- Nodes that are not neighbours: four links change. -/
theorem link_apart (hpa : Link f g p a) (hmb : Link f g m b) (hp : p ≠ a ∧ p ≠ b)
    (hm : m ≠ a ∧ m ≠ b) (hp' : f' p = some b) (hm' : f' m = some a) (hb' : f' b = f a)
    (ha' : f' a = f b) (hframe : ∀ u, u ≠ p → u ≠ m → u ≠ a → u ≠ b → f' u = f u) {u v : Word}
    (huv : Link f g u v) : f' (Equiv.swap a b u) = some (Equiv.swap a b v) := by
  -- only `p` and `m` come before `a` and `b`
  have hva : v = a → u = p := by
    rintro rfl
    exact Option.some.inj (huv.2.symm.trans hpa.2)
  have hvb : v = b → u = m := by
    rintro rfl
    exact Option.some.inj (huv.2.symm.trans hmb.2)
  by_cases hua : u = a
  · have hne : v ≠ a ∧ v ≠ b :=
      ⟨fun h => hp.1 ((hva h).symm.trans hua), fun h => hm.1 ((hvb h).symm.trans hua)⟩
    rw [Equiv.swap_apply_of_ne_of_ne hne.1 hne.2, hua, Equiv.swap_apply_left, hb', ← hua, huv.1]
  by_cases hub : u = b
  · have hne : v ≠ a ∧ v ≠ b :=
      ⟨fun h => hp.2 ((hva h).symm.trans hub), fun h => hm.2 ((hvb h).symm.trans hub)⟩
    rw [Equiv.swap_apply_of_ne_of_ne hne.1 hne.2, hub, Equiv.swap_apply_right, ha', ← hub, huv.1]
  rw [Equiv.swap_apply_of_ne_of_ne hua hub]
  by_cases hup : u = p
  · obtain rfl : a = v := Option.some.inj (hpa.1.symm.trans (hup ▸ huv.1))
    rw [Equiv.swap_apply_left, hup, hp']
  by_cases hum : u = m
  · obtain rfl : b = v := Option.some.inj (hmb.1.symm.trans (hum ▸ huv.1))
    rw [Equiv.swap_apply_right, hum, hm']
  rw [hframe u hup hum hua hub, huv.1,
    Equiv.swap_apply_of_ne_of_ne (fun h => hup (hva h)) fun h => hum (hvb h)]

/-- `a` directly in front of `b`: three links change. -/
theorem link_adjacent (hpa : Link f g p a) (hab : Link f g a b) (hbq : Link f g b q)
    (hp : p ≠ a ∧ p ≠ b) (hq : q ≠ a ∧ q ≠ b) (hp' : f' p = some b) (hb' : f' b = some a)
    (ha' : f' a = some q) (hframe : ∀ u, u ≠ p → u ≠ a → u ≠ b → f' u = f u) {u v : Word}
    (huv : Link f g u v) : f' (Equiv.swap a b u) = some (Equiv.swap a b v) := by
  by_cases hua : u = a
  · obtain rfl : b = v := Option.some.inj (hab.1.symm.trans (hua ▸ huv.1))
    rw [hua, Equiv.swap_apply_left, Equiv.swap_apply_right, hb']
  by_cases hub : u = b
  · obtain rfl : q = v := Option.some.inj (hbq.1.symm.trans (hub ▸ huv.1))
    rw [hub, Equiv.swap_apply_right, ha', Equiv.swap_apply_of_ne_of_ne hq.1 hq.2]
  rw [Equiv.swap_apply_of_ne_of_ne hua hub]
  by_cases hup : u = p
  · obtain rfl : a = v := Option.some.inj (hpa.1.symm.trans (hup ▸ huv.1))
    rw [Equiv.swap_apply_left, hup, hp']
  have hva : v ≠ a := by
    rintro rfl
    exact hup (Option.some.inj (huv.2.symm.trans hpa.2))
  have hvb : v ≠ b := by
    rintro rfl
    exact hua (Option.some.inj (huv.2.symm.trans hab.2))
  rw [hframe u hup hua hub, huv.1, Equiv.swap_apply_of_ne_of_ne hva hvb]

theorem Link.symm (h : Link f g a b) : Link g f b a := ⟨h.2, h.1⟩

end

namespace NodeHeap

section

variable {h h' : NodeHeap} {a b c u : Word} {l : List Word}

/-- The ring from another of its nodes. -/
theorem IsRing.at (hr : h.IsRing c l) (hu : u ∈ c :: l) :
    ∃ l', h.IsRing u l' ∧ ∀ v, v ∈ u :: l' ↔ v ∈ c :: l := by
  rcases List.mem_cons.mp hu with rfl | hu
  · exact ⟨l, hr, fun v => Iff.rfl⟩
  · obtain ⟨p, q, rfl⟩ := List.append_of_mem hu
    refine ⟨q ++ c :: p, hr.rotateTo, fun v => ?_⟩
    simp only [List.mem_cons, List.mem_append]
    tauto

/-- What is in front of a node and behind it. -/
theorem IsRing.links_at (hr : h.IsRing c l) (hu : u ∈ c :: l) :
    ∃ p n, Link h.next h.prev p u ∧ Link h.next h.prev u n ∧ h.allocated p = true ∧
      h.allocated u = true ∧ h.allocated n = true := by
  obtain ⟨l', hr', hmem⟩ := hr.at hu
  obtain ⟨n, hn, hlink⟩ := hr'.ring.next_mem List.mem_cons_self
  obtain ⟨pre, p, hpre⟩ := (List.eq_nil_or_concat (u :: l')).resolve_left (by simp)
  rw [List.concat_eq_append] at hpre
  exact ⟨p, n, hr'.ring.link_last hpre, hlink, hr'.allocated p (by rw [hpre]; simp),
    hr.allocated u hu, hr'.allocated n hn⟩

/-- A node that follows itself is the only one. -/
theorem IsRing.eq_of_next_self (hr : h.IsRing c l) (ha : a ∈ c :: l) (hb : b ∈ c :: l)
    (hself : h.next a = some a) : a = b := by
  obtain ⟨l', hr', hmem⟩ := hr.at ha
  obtain rfl := hr'.ring.eq_nil_of_next_self hself
  exact (List.mem_singleton.mp ((hmem b).mpr hb)).symm

theorem setNext_self {q : NodePtr} (hu : h.allocated u = true) (hq : h.next u = q) :
    h.setNext (some u) q = some h := by
  rw [setNext_some hu, ← hq, Function.update_eq_self]

theorem setPrev_self {q : NodePtr} (hu : h.allocated u = true) (hq : h.prev u = q) :
    h.setPrev (some u) q = some h := by
  rw [setPrev_some hu, ← hq, Function.update_eq_self]

/-- `swap` between its first two writes and its last two. -/
def swapMiddle (h : NodeHeap) (n1 n2 : NodePtr) : Option NodeHeap := do
  if (← h.getNext n1) = n2 ∨ (← h.getPrev n1) = n2 then do
    let h ← h.setPrev n1 n2
    h.setNext n2 n1
  else do
    let h ← h.setPrev (← h.getNext n1) n2
    let h ← h.setNext (← h.getPrev n2) n1
    let h ← h.setPrev n1 (← h.getPrev n2)
    h.setNext n2 (← h.getNext n1)

theorem swap_eq {p q : Word} (ha : h.allocated a = true) (hb : h.allocated b = true)
    (hp : h.allocated p = true) (hq : h.allocated q = true) (hpa : h.prev a = some p)
    (hbq : h.next b = some q) :
    h.swap (some a) (some b) =
      (swapMiddle { h with
        next := Function.update h.next p (some b)
        prev := Function.update h.prev q (some a) } (some a) (some b)).bind fun h =>
          (h.setNext (some a) (some q)).bind fun h => (h.setPrev (some b) (some p)).bind fun h =>
            some (some b, some b, some a, h) := by
  have hq' : ({ h with next := Function.update h.next p (some b) } : NodeHeap).allocated q = true := hq
  rw [swap, if_neg (by simp), getPrev_some ha, getNext_some hb, hpa, hbq]
  simp only [Option.bind_eq_bind, Option.bind_some]
  rw [setNext_some hp, Option.bind_some, setPrev_some hq', Option.bind_some]
  simp only [swapMiddle, Option.bind_eq_bind, Option.bind_assoc]
  refine congrArg _ (funext fun x => congrArg _ (funext fun y => ?_))
  split <;> simp only [Option.bind_assoc, Option.pure_def]

/-- Neighbours, as the test sees them. -/
theorem swapMiddle_adjacent (ha : h.allocated a = true) (hb : h.allocated b = true)
    (hab : h.next a = some b ∨ h.prev a = some b) :
    h.swapMiddle (some a) (some b) = some { h with
      next := Function.update h.next b (some a)
      prev := Function.update h.prev a (some b) } := by
  simp [swapMiddle, ha, hb, hab]

theorem swapMiddle_apart {m n : Word} (ha : h.allocated a = true) (hb : h.allocated b = true)
    (hm : h.allocated m = true) (hn : h.allocated n = true) (han : h.next a = some n)
    (hmb : h.prev b = some m) (hnb : n ≠ b) (hma : m ≠ a) (hab : h.prev a ≠ some b) :
    h.swapMiddle (some a) (some b) = some { h with
      next := Function.update (Function.update h.next m (some a)) b (some n)
      prev := Function.update (Function.update h.prev n (some b)) a (some m) } := by
  simp [swapMiddle, ha, hb, hm, hn, han, hmb, hnb, hab, hnb.symm, hma.symm]

/-- A node and itself: every write stores what was there. -/
theorem swap_self (hr : h.IsRing c l) (ha : a ∈ c :: l) :
    h.swap (some a) (some a) = some (some a, some a, some a, h) := by
  obtain ⟨p, n, hpa, han, hpin, hain, hnin⟩ := hr.links_at ha
  have hnext : Function.update h.next p (some a) = h.next := by rw [← hpa.1, Function.update_eq_self]
  have hprev : Function.update h.prev n (some a) = h.prev := by rw [← han.2, Function.update_eq_self]
  have hmiddle : h.swapMiddle (some a) (some a) = some h := by
    by_cases hself : n = a ∨ p = a
    · have hboth : n = a ∧ p = a := by
        rcases hself with rfl | rfl
        · exact ⟨rfl, Option.some.inj (hpa.2.symm.trans han.2)⟩
        · exact ⟨Option.some.inj (han.1.symm.trans hpa.1), rfl⟩
      obtain ⟨rfl, rfl⟩ := hboth
      rw [swapMiddle_adjacent hain hain (.inl han.1), hnext, hprev]
    · obtain ⟨hna, hpa'⟩ := not_or.mp hself
      rw [swapMiddle_apart hain hain hpin hnin han.1 hpa.2 hna hpa', hnext, hprev, ← han.1, ← hpa.2,
        Function.update_eq_self, Function.update_eq_self]
      rw [hpa.2]
      simpa using hpa'
  rw [swap_eq hain hain hpin hnin hpa.2 han.1, hnext, hprev, hmiddle, Option.bind_some,
    setNext_self hain han.1, Option.bind_some, setPrev_self hain hpa.2, Option.bind_some]

/-- The links that `swap` leaves if `*n2` is not directly in front of `*n1`. -/
theorem swap_links (hr : h.IsRing c l) (ha : a ∈ c :: l) (hb : b ∈ c :: l)
    (hcond : a = b ∨ h.next b ≠ some a) :
    ∃ h', h.swap (some a) (some b) = some (some b, some b, some a, h') ∧
      (∀ u v, Link h.next h.prev u v →
        Link h'.next h'.prev (Equiv.swap a b u) (Equiv.swap a b v)) ∧
      h'.allocated = h.allocated ∧ h'.data = h.data := by
  by_cases hab : a = b
  · subst hab
    refine ⟨h, swap_self hr ha, fun u v huv => ?_, rfl, rfl⟩
    rw [Equiv.swap_self]
    exact huv
  have hba := hcond.resolve_left hab
  obtain ⟨p, n, hpa, han, hpin, hain, hnin⟩ := hr.links_at ha
  obtain ⟨m, q, hmb, hbq, hmin, hbin, hqin⟩ := hr.links_at hb
  have hqa : q ≠ a := by
    rintro rfl
    exact hba hbq.1
  have hpb : p ≠ b := by
    rintro rfl
    exact hba hpa.1
  have hpa' : p ≠ a := by
    rintro rfl
    exact hab (hr.eq_of_next_self ha hb hpa.1)
  have hqb : q ≠ b := by
    rintro rfl
    exact hab (hr.eq_of_next_self hb ha hbq.1).symm
  by_cases hnb : n = b
  · subst hnb
    refine ⟨⟨h.allocated, Function.update (Function.update (Function.update h.next p (some n)) n
        (some a)) a (some q), Function.update (Function.update (Function.update h.prev q (some a)) a
        (some n)) n (some p), h.data⟩, ?_, ?_, rfl, rfl⟩
    · rw [swap_eq hain hbin hpin hqin hpa.2 hbq.1, swapMiddle_adjacent ?_ ?_ (.inl ?_)]
      · simp [hain, hbin]
      · exact hain
      · exact hbin
      · simp [hpa'.symm, han.1]
    · intro u v huv
      refine ⟨link_adjacent hpa han hbq ⟨hpa', hpb⟩ ⟨hqa, hqb⟩ ?_ ?_ ?_ ?_ huv, ?_⟩
      · simp [hpa', hpb]
      · simp [Ne.symm hab]
      · simp
      · intro w hwp hwa hwb
        simp [hwp, hwa, hwb]
      · rw [Equiv.swap_comm]
        refine link_adjacent hbq.symm han.symm hpa.symm ⟨hqb, hqa⟩ ⟨hpb, hpa'⟩ ?_ ?_ ?_ ?_ huv.symm
        · simp [hqa, hqb]
        · simp [hab]
        · simp
        · intro w hwq hwb hwa
          simp [hwq, hwa, hwb]
  · have hma : m ≠ a := by
      rintro rfl
      exact hnb (Option.some.inj (han.1.symm.trans hmb.1))
    have hmb' : m ≠ b := by
      rintro rfl
      exact hab (hr.eq_of_next_self hb ha hmb.1).symm
    have hna : n ≠ a := by
      rintro rfl
      exact hab (hr.eq_of_next_self ha hb han.1)
    have hmp : m ≠ p := by
      rintro rfl
      exact hab (Option.some.inj (hpa.1.symm.trans hmb.1))
    have hqn : q ≠ n := by
      rintro rfl
      exact hab (Option.some.inj (han.2.symm.trans hbq.2))
    refine ⟨⟨h.allocated, Function.update (Function.update (Function.update
        (Function.update h.next p (some b)) m (some a)) b (some n)) a (some q),
        Function.update (Function.update (Function.update
        (Function.update h.prev q (some a)) n (some b)) a (some m)) b (some p), h.data⟩,
        ?_, ?_, rfl, rfl⟩
    · rw [swap_eq hain hbin hpin hqin hpa.2 hbq.1,
        swapMiddle_apart ?_ ?_ (m := m) ?_ (n := n) ?_ ?_ ?_ hnb hma ?_]
      · simp [hain, hbin]
      · exact hain
      · exact hbin
      · exact hmin
      · exact hnin
      · simp [hpa'.symm, han.1]
      · simp [hqb.symm, hmb.2]
      · simp [hqa.symm, hpa.2, hpb]
    · intro u v huv
      refine ⟨link_apart hpa hmb ⟨hpa', hpb⟩ ⟨hma, hmb'⟩ ?_ ?_ ?_ ?_ ?_ huv,
        link_apart han.symm hbq.symm ⟨hna, hnb⟩ ⟨hqa, hqb⟩ ?_ ?_ ?_ ?_ ?_ huv.symm⟩
      · simp [hpa', hpb, Ne.symm hmp]
      · simp [hma, hmb']
      · simp [Ne.symm hab, han.1]
      · simp [hbq.1]
      · intro w hwp hwm hwa hwb
        simp [hwp, hwm, hwa, hwb]
      · simp [hna, hnb]
      · simp [hqa, hqb, hqn]
      · simp [hpa.2]
      · simp [hab, hmb.2]
      · intro w hwn hwq hwa hwb
        simp [hwn, hwq, hwa, hwb]

/-- The last two writes of `swap`. -/
theorem last_writes {n1Prev r n1 n2 : NodePtr}
    (hrun : ((h.setNext (some a) (some a)).bind fun h => (h.setPrev (some b) n1Prev).bind fun h =>
      some (some b, some b, some a, h)) = some (r, n1, n2, h')) : h'.next a = some a := by
  simp only [Option.bind_eq_some_iff, Option.some.injEq, Prod.mk.injEq] at hrun
  obtain ⟨h₁, hnext, h₂, hprev, -, -, -, rfl⟩ := hrun
  obtain ⟨a', ha', rfl⟩ := Option.map_eq_some_iff.mp hnext
  obtain rfl : a = a' := Option.some.inj (Option.filter_eq_some_iff.mp ha').1
  obtain ⟨-, -, rfl⟩ := Option.map_eq_some_iff.mp hprev
  exact Function.update_self ..

/-- If `*n2` is directly in front of `*n1`, the last write to `n1->next` stores `*n1`. -/
theorem swap_next_self {r n1 n2 : NodePtr} (hr : h.IsRing c l) (ha : a ∈ c :: l) (hb : b ∈ c :: l)
    (hba : h.next b = some a) (hrun : h.swap (some a) (some b) = some (r, n1, n2, h')) :
    h'.next a = some a := by
  obtain ⟨p, -, hpa, -, hpin, hain, -⟩ := hr.links_at ha
  rw [swap_eq hain (hr.allocated b hb) hpin hain hpa.2 hba] at hrun
  obtain ⟨h₂, -, hrun⟩ := Option.bind_eq_some_iff.mp hrun
  exact last_writes hrun

theorem swap_mem {u : Word} {l : List Word} (ha : a ∈ l) (hb : b ∈ l) (hu : u ∈ l) :
    Equiv.swap a b u ∈ l := by
  rw [Equiv.swap_apply_def]
  split
  · exact hb
  · split
    · exact ha
    · exact hu

/-- Both nodes are among the exchanged ones. -/
theorem mem_swapped (ha : a ∈ c :: l) (hb : b ∈ c :: l) :
    a ∈ Equiv.swap a b c :: l.map (Equiv.swap a b) ∧
      b ∈ Equiv.swap a b c :: l.map (Equiv.swap a b) := by
  rw [← List.map_cons]
  have ha' := List.mem_map_of_mem (f := Equiv.swap a b) hb
  have hb' := List.mem_map_of_mem (f := Equiv.swap a b) ha
  rw [Equiv.swap_apply_right] at ha'
  rw [Equiv.swap_apply_left] at hb'
  exact ⟨ha', hb'⟩

/-- `swap` exchanges the two nodes, and once more through the same two pointers exchanges them
back. -/
def SwapCorrect (h : NodeHeap) (c : Word) (l : List Word) (a b : Word) : Prop :=
  ∃ h', h.swap (some a) (some b) = some (some b, some b, some a, h') ∧
    h'.IsRing (Equiv.swap a b c) (l.map (Equiv.swap a b)) ∧ h'.data = h.data ∧
    ∃ h'', h'.swap (some b) (some a) = some (some a, some a, some b, h'') ∧ h''.IsRing c l ∧
      h''.data = h.data

/-- One swap. -/
theorem IsRing.swap (hr : h.IsRing c l) (ha : a ∈ c :: l) (hb : b ∈ c :: l)
    (hcond : a = b ∨ h.next b ≠ some a) :
    ∃ h', h.swap (some a) (some b) = some (some b, some b, some a, h') ∧
      h'.IsRing (Equiv.swap a b c) (l.map (Equiv.swap a b)) ∧ h'.data = h.data ∧
      (b = a ∨ h'.next a ≠ some b) := by
  obtain ⟨h', hrun, hlinks, halloc, hdata⟩ := swap_links hr ha hb hcond
  refine ⟨h', hrun, ⟨hr.ring.map (Equiv.swap a b).injective fun u _ v => hlinks u v, ?_⟩, hdata, ?_⟩
  · intro u hu
    rw [← List.map_cons] at hu
    obtain ⟨w, hw, rfl⟩ := List.mem_map.mp hu
    rw [halloc]
    exact hr.allocated _ (swap_mem ha hb hw)
  · refine hcond.imp Eq.symm fun hba hab => hba ?_
    -- `a` stands where `b` was
    obtain ⟨-, q, -, hbq, -⟩ := hr.links_at hb
    have hnext := (hlinks b q hbq).1
    rw [Equiv.swap_apply_right, hab] at hnext
    have hq : q = a := by
      refine (Equiv.swap a b).injective ?_
      rw [Equiv.swap_apply_left]
      exact (Option.some.inj hnext).symm
    rw [hbq.1, hq]

theorem swapCorrect (hr : h.IsRing c l) (ha : a ∈ c :: l) (hb : b ∈ c :: l)
    (hcond : a = b ∨ h.next b ≠ some a) : h.SwapCorrect c l a b := by
  obtain ⟨h', hrun, hr', hdata, hcond'⟩ := hr.swap ha hb hcond
  obtain ⟨ha', hb'⟩ := mem_swapped ha hb
  obtain ⟨h'', hrun', hr'', hdata', -⟩ := hr'.swap hb' ha' hcond'
  have hback : Equiv.swap b a ∘ Equiv.swap a b = id := by
    funext u
    rw [Function.comp_apply, Equiv.swap_comm, Equiv.swap_apply_self, id]
  rw [List.map_map, hback, List.map_id, ← Function.comp_apply (f := Equiv.swap b a), hback] at hr''
  exact ⟨h', hrun, hr', hdata, h'', hrun', hr'', hdata'.trans hdata⟩

theorem not_swapCorrect (hr : h.IsRing c l) (ha : a ∈ c :: l) (hb : b ∈ c :: l) (hab : a ≠ b)
    (hba : h.next b = some a) : ¬ h.SwapCorrect c l a b := by
  rintro ⟨h', hrun, hr', -⟩
  have hself := swap_next_self hr ha hb hba hrun
  obtain ⟨ha', hb'⟩ := mem_swapped ha hb
  exact hab (hr'.eq_of_next_self ha' hb' hself)

end

/-- `swap` is right if and only if the second node is not directly in front of the first. -/
theorem swap_correct_iff {h : NodeHeap} {c : Word} {l : List Word} {a b : Word} (hr : h.IsRing c l)
    (ha : a ∈ c :: l) (hb : b ∈ c :: l) :
    h.SwapCorrect c l a b ↔ a = b ∨ h.next b ≠ some a := by
  refine ⟨fun hcorrect => ?_, swapCorrect hr ha hb⟩
  by_contra hcond
  obtain ⟨hab, hba⟩ := not_or.mp hcond
  exact not_swapCorrect hr ha hb hab (not_not.mp hba) hcorrect

/-- A ring of three nodes. -/
def threeNodes : NodeHeap :=
  ⟨fun _ => true, fun u => if u = 1 then some 2 else if u = 2 then some 3 else some 1,
    fun u => if u = 1 then some 3 else if u = 2 then some 1 else some 2,
    fun _ => Vector.replicate 5 0⟩

theorem threeNodes_ring : threeNodes.IsRing 1 [2, 3] := by
  refine ⟨⟨by decide, ?_⟩, fun _ _ => rfl⟩
  simp [Link, threeNodes]

theorem swap_correct_iff_threeNodes : threeNodes.SwapCorrect 1 [2, 3] 1 2 :=
  (swap_correct_iff threeNodes_ring (by decide) (by decide)).mpr (.inr (by decide))

/-- The second node of the ring with the first. -/
theorem swap_breaks_ring : threeNodes.IsRing 1 [2, 3] ∧ ¬ threeNodes.SwapCorrect 1 [2, 3] 2 1 :=
  ⟨threeNodes_ring, not_swapCorrect threeNodes_ring (by decide) (by decide) (by decide) rfl⟩

end NodeHeap

end AvocadOS
