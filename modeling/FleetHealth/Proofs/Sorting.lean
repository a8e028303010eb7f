import Mathlib.Data.List.Basic

/-!
# Sorting

Orders by which lists are sorted, and what a stable sort by one puts first: among the items of some
kind, the first of those that no item of that kind has to precede.
-/
namespace FleetHealth

variable {α : Type} {le : α → α → Bool}

/-- An order to sort by: any two items stand one way or the other. -/
structure SortOrder (le : α → α → Bool) : Prop where
  trans : ∀ a b c, le a b → le b c → le a c
  total : ∀ a b, le a b || le b a

namespace SortOrder

theorem of_compare (cmp : α → α → Ordering) [Std.TransCmp cmp]
    (h : ∀ a b, le a b = (cmp a b).isLE) : SortOrder le where
  trans a b c hab hbc := by
    rw [h] at *
    exact Std.TransCmp.isLE_trans hab hbc
  total a b := by
    rw [h, h, @Std.OrientedCmp.eq_swap _ cmp _ b a]
    cases cmp a b <;> rfl

theorem refl (ho : SortOrder le) (a : α) : le a a := by
  have h := ho.total a a
  rwa [Bool.or_self] at h

theorem pairwise (ho : SortOrder le) (l : List α) :
    (l.mergeSort le).Pairwise fun a b => le a b := List.pairwise_mergeSort ho.trans ho.total l

/-- Items any of which can precede any other keep their order. -/
theorem filter_mergeSort (ho : SortOrder le) (l : List α) {p : α → Bool}
    (h : ∀ a ∈ l, ∀ b ∈ l, p a → p b → le a b) : (l.mergeSort le).filter p = l.filter p := by
  have hs : (l.filter p).Sublist (l.mergeSort le) := by
    refine List.sublist_mergeSort ho.trans ho.total ?_ List.filter_sublist
    refine List.pairwise_of_forall_mem_list fun a ha b hb => ?_
    rw [List.mem_filter] at ha hb
    exact h a ha.1 b hb.1 ha.2 hb.2
  have hf := hs.filter p
  rw [List.filter_filter] at hf
  simp only [Bool.and_self] at hf
  exact (hf.eq_of_length ((List.mergeSort_perm l le).filter p).length_eq.symm).symm

/-- Sorted lists are equal when they hold the same items, in the same order, at each place. -/
theorem ext (ho : SortOrder le) {l l' : List α} (hl : l.Pairwise fun a b => le a b)
    (hl' : l'.Pairwise fun a b => le a b)
    (h : ∀ a, l.filter (fun b => le a b && le b a) = l'.filter fun b => le a b && le b a) :
    l = l' := by
  induction l generalizing l' with
  | nil =>
    rcases l' with _ | ⟨b, rest'⟩
    · rfl
    · have hb := h b
      simp [ho.refl b] at hb
  | cons a rest ih =>
    obtain ⟨ha, hrest⟩ := List.pairwise_cons.1 hl
    rcases l' with _ | ⟨b, rest'⟩
    · have ha := h a
      simp [ho.refl a] at ha
    · obtain ⟨hb, hrest'⟩ := List.pairwise_cons.1 hl'
      -- each head is an item of the other list, so the two stand at one place
      have hmem : a ∈ b :: rest' := by
        have : a ∈ (a :: rest).filter fun b => le a b && le b a := by simp [ho.refl a]
        rw [h a] at this
        exact (List.mem_filter.1 this).1
      have hmem' : b ∈ a :: rest := by
        have : b ∈ (b :: rest').filter fun c => le b c && le c b := by simp [ho.refl b]
        rw [← h b] at this
        exact (List.mem_filter.1 this).1
      have hab : le a b := by
        rcases List.mem_cons.1 hmem' with rfl | hm
        · exact ho.refl b
        · exact ha b hm
      have hba : le b a := by
        rcases List.mem_cons.1 hmem with rfl | hm
        · exact ho.refl a
        · exact hb a hm
      obtain rfl : a = b := by
        have hhead := h a
        simp only [List.filter_cons, ho.refl a, hab, hba, Bool.and_self, if_true,
          List.cons.injEq] at hhead
        exact hhead.1
      rw [ih hrest hrest' fun c => ?_]
      have hc := h c
      by_cases hca : (le c a && le a c) = true
      · simpa [List.filter_cons, hca] using hc
      · simpa [List.filter_cons, hca] using hc

/-- The items that tie with one keep their order. -/
theorem filter_ties (ho : SortOrder le) (l : List α) (a : α) :
    (l.mergeSort le).filter (fun b => le a b && le b a) =
      l.filter fun b => le a b && le b a := by
  refine ho.filter_mergeSort l fun b _ c _ hb hc => ?_
  rw [Bool.and_eq_true] at hb hc
  exact ho.trans b a c hb.2 hc.1

/-- Lists sort to the same list where the items of each tie stand in the same order. -/
theorem mergeSort_eq (ho : SortOrder le) {l l' : List α}
    (h : ∀ a, l.filter (fun b => le a b && le b a) = l'.filter fun b => le a b && le b a) :
    l.mergeSort le = l'.mergeSort le :=
  ho.ext (ho.pairwise _) (ho.pairwise _) fun a => by
    rw [ho.filter_ties, ho.filter_ties, h a]

/-- A list sorted before more is added to it sorts as if it had not been. -/
theorem mergeSort_append (ho : SortOrder le) (l l' : List α) :
    (l.mergeSort le ++ l').mergeSort le = (l ++ l').mergeSort le :=
  ho.mergeSort_eq fun a => by rw [List.filter_append, List.filter_append, ho.filter_ties]

/-- What is left out may be left out before the sort or after it. -/
theorem mergeSort_filter (ho : SortOrder le) (l : List α) (p : α → Bool) :
    (l.filter p).mergeSort le = (l.mergeSort le).filter p := by
  refine ho.ext (ho.pairwise _) ((ho.pairwise l).filter _) fun a => ?_
  rw [ho.filter_ties, List.filter_comm, List.filter_comm _ p, ho.filter_ties]

/-- Lists of the same items sort to the same list, where only equal items tie. -/
theorem mergeSort_congr (ho : SortOrder le) {l l' : List α} (hp : l.Perm l')
    (h : ∀ a ∈ l, ∀ b ∈ l, le a b → le b a → a = b) : l.mergeSort le = l'.mergeSort le := by
  have hs : (l.mergeSort le).Perm (l'.mergeSort le) :=
    (List.mergeSort_perm l le).trans (hp.trans (List.mergeSort_perm l' le).symm)
  refine hs.eq_of_pairwise (fun a b ha hb hab hba => ?_) (ho.pairwise l) (ho.pairwise l')
  exact h a (List.mem_mergeSort.1 ha) b (hp.symm.subset (List.mem_mergeSort.1 hb)) hab hba

theorem le_of_find? {l : List α} {p : α → Bool} {a b : α} (ho : SortOrder le)
    (hl : l.Pairwise fun a b => le a b) (ha : l.find? p = some a) (hb : b ∈ l) (hp : p b) :
    le a b := by
  obtain ⟨_, before, after, rfl, hn⟩ := List.find?_eq_some_iff_append.1 ha
  rcases List.mem_append.1 hb with hb | hb
  · have hnot := hn b hb
    rw [hp] at hnot
    cases hnot
  · rcases List.mem_cons.1 hb with rfl | hb
    · exact ho.refl b
    · exact (List.pairwise_cons.1 (List.pairwise_append.1 hl).2.1).1 b hb

/-- Of the items of a kind, a sorted list starts with the first one in the list before that precedes
them all. -/
theorem find?_mergeSort (ho : SortOrder le) (l : List α) (p : α → Bool) :
    (l.mergeSort le).find? p = l.find? fun a => p a && l.all fun b => !p b || le a b := by
  let first (a : α) : Bool := p a && l.all fun b => !p b || le a b
  have hfirst {a : α} : first a ↔ p a ∧ ∀ b ∈ l, p b → le a b := by
    simp only [first, Bool.and_eq_true, List.all_eq_true, Bool.or_eq_true, Bool.not_eq_true',
      ← Bool.not_eq_true, imp_iff_not_or]
  -- items that precede all of the kind precede each other, so the sort leaves them as they stand
  have hkeep : (l.mergeSort le).find? first = l.find? first := by
    rw [← List.head?_filter, ← List.head?_filter, ho.filter_mergeSort l]
    exact fun a _ b hb ha hb' => (hfirst.1 ha).2 b hb (hfirst.1 hb').1
  refine Eq.trans ?_ hkeep
  rcases hs : (l.mergeSort le).find? p with _ | a
  · rw [List.find?_eq_none] at hs
    exact (List.find?_eq_none.2 fun a ha h => hs a ha (hfirst.1 h).1).symm
  · have hmin : first a := hfirst.2 ⟨List.find?_some hs, fun b hb hp =>
      ho.le_of_find? (ho.pairwise l) hs (List.mem_mergeSort.2 hb) hp⟩
    obtain ⟨_, before, after, hl, hn⟩ := List.find?_eq_some_iff_append.1 hs
    refine (List.find?_eq_some_iff_append.2 ⟨hmin, before, after, hl, fun b hb => ?_⟩).symm
    have hp := hn b hb
    simp only [Bool.not_eq_true', ← Bool.not_eq_true] at hp ⊢
    exact fun h => hp (hfirst.1 h).1

end SortOrder

end FleetHealth
