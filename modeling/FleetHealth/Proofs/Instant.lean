import FleetHealth.Instant

/-!
# Order of instants

Instants are compared by second and then by nanosecond, so indexes and maps keyed by them obey the
laws of ordered maps.
-/
namespace FleetHealth.Instant

instance : Std.TransOrd Instant :=
  inferInstanceAs (Std.TransCmp (compareLex (compareOn Instant.second) (compareOn Instant.nano)))

instance : Std.LawfulEqOrd Instant where
  eq_of_compare {a b} h := by
    obtain ⟨hs, hn⟩ := Ordering.then_eq_eq.1 h
    obtain ⟨s, n, _⟩ := a
    obtain ⟨s', n', _⟩ := b
    obtain rfl : s = s' := Std.LawfulEqOrd.eq_of_compare hs
    obtain rfl : n = n' := Std.LawfulEqOrd.eq_of_compare hn
    rfl

theorem le_refl (t : Instant) : t ≤ t := @Std.ReflCmp.isLE_rfl _ compare _ t

theorem le_trans {t u v : Instant} (h : t ≤ u) (h' : u ≤ v) : t ≤ v :=
  @Std.TransCmp.isLE_trans _ compare _ t u v h h'

theorem le_iff {t u : Instant} :
    t ≤ u ↔ t.second < u.second ∨ t.second = u.second ∧ t.nano ≤ u.nano := by
  change ((compare t.second u.second).then (compare t.nano u.nano)).isLE = true ↔ _
  rw [Ordering.isLE_then_iff_or, Int.compare_eq_lt, Int.compare_eq_eq, Nat.isLE_compare]

theorem le_antisymm {t u : Instant} (h : t ≤ u) (h' : u ≤ t) : t = u :=
  Std.LawfulEqOrd.eq_of_compare (Std.OrientedCmp.isLE_antisymm h h')

theorem le_total (t u : Instant) : t ≤ u ∨ u ≤ t := by
  rw [le_iff, le_iff]
  omega

instance : LT Instant := ⟨fun t u => compare t u = .lt⟩

theorem lt_iff_le_and_ne {t u : Instant} : t < u ↔ t ≤ u ∧ t ≠ u := by
  change compare t u = .lt ↔ (compare t u).isLE = true ∧ t ≠ u
  rw [Ne, ← Std.LawfulEqOrd.compare_eq_iff_eq (a := t) (b := u)]
  cases compare t u <;> decide

/-- Instants in order that are the same are in the same order. -/
theorem eq_of_ascending {l l' : List Instant} (h : l.Pairwise (· < ·)) (h' : l'.Pairwise (· < ·))
    (hmem : ∀ t, t ∈ l ↔ t ∈ l') : l = l' := by
  have hnodup {l : List Instant} (h : l.Pairwise (· < ·)) : l.Nodup :=
    h.imp fun hlt => (lt_iff_le_and_ne.1 hlt).2
  refine ((List.perm_ext_iff_of_nodup (hnodup h) (hnodup h')).2 hmem).eq_of_pairwise ?_ h h'
  intro t u _ _ htu hut
  exact le_antisymm (lt_iff_le_and_ne.1 htu).1 (lt_iff_le_and_ne.1 hut).1

theorem first_le (t : Instant) : first ≤ t := by
  refine Ordering.isLE_then_iff_or.2 ?_
  rcases Int.le_iff_lt_or_eq.1 t.valid.1 with hlt | heq
  · exact .inl (Int.compare_eq_lt.2 hlt)
  · exact .inr ⟨Int.compare_eq_eq.2 heq, Nat.isLE_compare.2 (Nat.zero_le _)⟩

theorem millisSince_self (t : Instant) : t.millisSince t = 0 := by
  simp [millisSince, since]

end FleetHealth.Instant
