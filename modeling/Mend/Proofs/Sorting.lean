import Mathlib.Data.List.Basic

/-!
# Lists in order

Sorting puts elements in order and keeps the given order wherever the comparison leaves it open. So
an element that is left out beforehand or afterwards makes no difference to the others.

* `Ranks`: a comparison by which lists are sorted.
* `Ranks.filter_mergeSort`: to sort and to leave elements out is the same in either order.
* `Ranks.pairwise_mergeSort_of_tied`: elements that could stand either way stand as they did.
-/

namespace Mend

/-- A comparison by which lists are sorted: of two elements, one comes first or either may. -/
structure Ranks {α : Type} (le : α → α → Bool) : Prop where
  trans : ∀ a b c, le a b → le b c → le a c
  total : ∀ a b, (le a b || le b a) = true

namespace Ranks

variable {α : Type} {le : α → α → Bool} {l : List α}

/-- Elements are ranked by a number. -/
theorem of_key (key : α → Nat) : Ranks fun a b => decide (key a ≤ key b) where
  trans a b c hab hbc := by
    rw [decide_eq_true_iff] at hab hbc ⊢
    exact Nat.le_trans hab hbc
  total a b := by
    rw [Bool.or_eq_true, decide_eq_true_iff, decide_eq_true_iff]
    exact Nat.le_total _ _

/-- Elements are ranked the other way round. -/
theorem flip (h : Ranks le) : Ranks fun a b => le b a where
  trans a b c hab hbc := h.trans c b a hbc hab
  total a b := h.total b a

variable (h : Ranks le)

include h

theorem refl (a : α) : le a a := by simpa using h.total a a

/-- In a sorted list, an element goes in front of the first one that it need not follow. -/
theorem mergeSort_cons (x : α) (l : List α) :
    (x :: l).mergeSort le =
      (l.mergeSort le).filter (fun y => !le x y) ++ x :: (l.mergeSort le).filter (le x) := by
  obtain ⟨front, back, hcons, hl, hfront⟩ := List.mergeSort_cons h.trans h.total x l
  have hback : ∀ y ∈ back, le x y := by
    have hsorted := List.pairwise_mergeSort h.trans h.total (x :: l)
    rw [hcons, List.pairwise_append, List.pairwise_cons] at hsorted
    exact hsorted.2.1.1
  have hfront' : ∀ y ∈ front, ¬ le x y := by simpa using hfront
  have hback' : ∀ y ∈ back, ¬ (!le x y) = true := by simpa using hback
  rw [hcons, hl, List.filter_append, List.filter_append, List.filter_eq_self.mpr hfront,
    List.filter_eq_nil_iff.mpr hback', List.filter_eq_nil_iff.mpr hfront',
    List.filter_eq_self.mpr hback, List.append_nil, List.nil_append]

/-- **To sort and to leave elements out is the same in either order.** -/
theorem filter_mergeSort (p : α → Bool) (l : List α) :
    (l.mergeSort le).filter p = (l.filter p).mergeSort le := by
  induction l with
  | nil => simp
  | cons x l ih =>
    by_cases hx : p x
    · have hswap : ∀ q : α → Bool,
          ((l.mergeSort le).filter q).filter p = ((l.mergeSort le).filter p).filter q := by
        intro q
        rw [List.filter_filter, List.filter_filter]
        exact List.filter_congr fun _ _ => Bool.and_comm _ _
      rw [List.filter_cons_of_pos hx, h.mergeSort_cons, h.mergeSort_cons, ← ih, List.filter_append,
        List.filter_cons_of_pos hx, hswap, hswap]
    · obtain ⟨front, back, hcons, hl, -⟩ := List.mergeSort_cons h.trans h.total x l
      rw [List.filter_cons_of_neg hx, ← ih, hcons, hl, List.filter_append, List.filter_append,
        List.filter_cons_of_neg hx]

/-- Elements of which any two could stand either way are not sorted any further. -/
theorem filter_mergeSort_of_tied {p : α → Bool} (hp : ∀ a ∈ l, ∀ b ∈ l, p a → p b → le a b) :
    (l.mergeSort le).filter p = l.filter p := by
  rw [h.filter_mergeSort]
  refine List.mergeSort_of_pairwise (List.pairwise_of_forall_mem_list fun a ha b hb => ?_)
  obtain ⟨ha, hpa⟩ := List.mem_filter.mp ha
  obtain ⟨hb, hpb⟩ := List.mem_filter.mp hb
  exact hp a ha b hb hpa hpb

/-- **Elements that could stand either way stand as they did.** -/
theorem pairwise_mergeSort_of_tied {R : α → α → Prop} (hl : l.Pairwise R) :
    (l.mergeSort le).Pairwise fun a b => le b a → R a b := by
  rw [List.pairwise_iff_forall_sublist]
  intro a b hab hba
  have hle : le a b :=
    List.pairwise_iff_forall_sublist.mp (List.pairwise_mergeSort h.trans h.total l) hab
  -- what is tied with the first of the two keeps its order, so the two stand in the given list
  have hpair := hab.filter fun c => le a c && le c a
  have htied : ∀ b c, (le a b && le b a) = true → (le a c && le c a) = true → le b c := by
    intro b c hb hc
    rw [Bool.and_eq_true] at hb hc
    exact h.trans b a c hb.2 hc.1
  rw [h.filter_mergeSort_of_tied fun b _ c _ => htied b c] at hpair
  simp only [List.filter_cons, List.filter_nil, h.refl a, hle, hba, Bool.and_self, if_true] at hpair
  exact List.pairwise_iff_forall_sublist.mp hl (hpair.trans List.filter_sublist)

end Ranks

end Mend
