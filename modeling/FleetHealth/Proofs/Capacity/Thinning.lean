import FleetHealth.Capacity.Fleet
import Mathlib.Data.List.Basic

/-!
# Thinned series

Thinning drops samples and adds or moves none, and the newest sample is always kept.
-/
namespace FleetHealth.Capacity

variable {α : Type}

theorem everyNth_go_append (stride skip : Nat) (hs : 0 < stride) (l : List α) (a : α) :
    everyNth.go stride skip (l ++ [a]) = everyNth.go stride skip l ++
      if skip ≤ l.length ∧ (l.length - skip) % stride = 0 then [a] else [] := by
  induction l generalizing skip with
  | nil =>
    cases skip with
    | zero => simp [everyNth.go]
    | succ skip => simp [everyNth.go]
  | cons b rest ih =>
    cases skip with
    | zero =>
      simp only [List.cons_append, everyNth.go, ih, List.length_cons]
      -- the next item is kept one stride further on, which leaves the same remainder
      have hmod : (stride - 1 ≤ rest.length ∧ (rest.length - (stride - 1)) % stride = 0) ↔
          (0 ≤ rest.length + 1 ∧ (rest.length + 1 - 0) % stride = 0) := by
        by_cases hle : stride ≤ rest.length + 1
        · have heq : rest.length - (stride - 1) = rest.length + 1 - stride := by omega
          rw [heq, ← Nat.mod_eq_sub_mod hle]
          exact ⟨fun h => ⟨Nat.zero_le _, h.2⟩, fun h => ⟨by omega, h.2⟩⟩
        · have hmod : (rest.length + 1) % stride = rest.length + 1 := Nat.mod_eq_of_lt (by omega)
          rw [Nat.sub_zero, hmod]
          exact ⟨fun h => by omega, fun h => by omega⟩
      simp only [hmod]
    | succ skip =>
      simp only [List.cons_append, everyNth.go, ih, List.length_cons, Nat.add_le_add_iff_right,
        Nat.add_sub_add_right]

theorem everyNth_append (stride : Nat) (hs : 0 < stride) (l : List α) (a : α) :
    everyNth stride (l ++ [a]) =
      everyNth stride l ++ if l.length % stride = 0 then [a] else [] := by
  simpa [everyNth] using everyNth_go_append stride 0 hs l a

theorem everyNth_sublist (stride : Nat) (l : List α) : (everyNth stride l).Sublist l := by
  have hgo (skip : Nat) : (everyNth.go stride skip l).Sublist l := by
    induction l generalizing skip with
    | nil => cases skip <;> exact .slnil
    | cons a rest ih =>
      cases skip with
      | zero => exact (ih _).cons_cons a
      | succ skip => exact (ih skip).cons a
  exact hgo 0

theorem thin_of_length_le {samples : List Sample} {budget : Nat} (h : samples.length ≤ budget) :
    thin samples budget = samples := by
  unfold thin
  exact if_pos (.inl h)

/-- What is kept of a series is what is kept before its newest sample, and that sample. -/
theorem thin_append (before : List Sample) (last : Sample) (budget : Nat) :
    ∃ kept, kept.Sublist before ∧ thin (before ++ [last]) budget = kept ++ [last] := by
  unfold thin
  by_cases h : (before ++ [last]).length ≤ budget ∨ budget < 2
  · exact ⟨before, .refl before, if_pos h⟩
  simp only [if_neg h]
  rw [not_or] at h
  generalize hstride : ((before ++ [last]).length + budget - 1) / budget = stride
  have hs : 0 < stride := by
    rw [← hstride]
    exact Nat.div_pos (by omega) (by omega)
  rw [everyNth_append stride hs]
  simp only [List.length_append, List.length_singleton, Nat.add_sub_cancel]
  split
  next => exact ⟨_, everyNth_sublist stride before, rfl⟩
  next =>
    rw [List.append_nil, List.getLast?_append, List.getLast?_singleton, Option.some_or]
    refine ⟨_, ?_, rfl⟩
    split
    next => exact (List.dropLast_sublist _).trans (everyNth_sublist stride before)
    next => exact everyNth_sublist stride before

theorem thin_sublist (samples : List Sample) (budget : Nat) :
    (thin samples budget).Sublist samples := by
  rcases samples.eq_nil_or_concat' with rfl | ⟨before, last, rfl⟩
  · rw [thin_of_length_le (Nat.zero_le _)]
  · obtain ⟨kept, hk, ht⟩ := thin_append before last budget
    rw [ht]
    exact hk.append (.refl [last])

theorem getLast?_thin (samples : List Sample) (budget : Nat) :
    (thin samples budget).getLast? = samples.getLast? := by
  rcases samples.eq_nil_or_concat' with rfl | ⟨before, last, rfl⟩
  · rw [thin_of_length_le (Nat.zero_le _)]
  · obtain ⟨kept, _, ht⟩ := thin_append before last budget
    rw [ht]
    simp

/-- The newest finite sample is among those that thinning leaves. -/
def KeepsNewest (samples : List Sample) (budget : Nat) : Prop :=
  (Series.finite (thin samples budget)).getLast? = (Series.finite samples).getLast?

theorem keepsNewest_of_length_le {samples : List Sample} {budget : Nat}
    (h : samples.length ≤ budget) : KeepsNewest samples budget := by
  rw [KeepsNewest, thin_of_length_le h]

theorem keepsNewest_of_isFinite {samples : List Sample} {last : Sample}
    (h : samples.getLast? = some last) (hfinite : Series.isFinite last) (budget : Nat) :
    KeepsNewest samples budget := by
  have hlast {l : List Sample} (hl : l.getLast? = some last) :
      (Series.finite l).getLast? = some last := by
    obtain ⟨before, rfl⟩ := List.getLast?_eq_some_iff.1 hl
    simp [Series.finite, List.filter_append, hfinite]
  rw [KeepsNewest, hlast h, hlast ((getLast?_thin samples budget).trans h)]

end FleetHealth.Capacity
