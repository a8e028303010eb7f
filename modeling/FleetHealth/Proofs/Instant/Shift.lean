import FleetHealth.Proofs.Instant
import FleetHealth.Proofs.Words

/-!
# Moved instants

A longer move never ends earlier, also where it starts within a leap second, and the moves that leave
the calendar forward are the longest ones.
-/
namespace FleetHealth.Instant

variable {t u v : Instant} {a b : Int}

/-- The moves from within a leap second told by the nanosecond they lead to. -/
theorem shift?_eq (t : Instant) (nanos : Int) : t.shift? nanos =
    if t.inLeap then
      if 2000000000 ≤ t.nano + nanos then ofLinear? (t.linear - nanosPerSecond + nanos)
      else if nanos ≤ -1000000000 then ofLinear? (t.linear + nanos)
      else ofSecond? t.second (t.nano + nanos).toNat
    else ofLinear? (t.linear + nanos) := by
  have hnano := t.nano_lt
  have hunit : nanosPerSecond = 1000000000 := rfl
  have hsum := Int.tmod_add_mul_tdiv nanos 1000000000
  have hquotient : (nanos.tdiv 1000000000).natAbs = nanos.natAbs / 1000000000 := Int.natAbs_tdiv ..
  have hrest : (nanos.tmod 1000000000).natAbs = nanos.natAbs % 1000000000 := Int.natAbs_tmod ..
  simp only [shift?, hunit]
  by_cases hleap : t.inLeap
  · have hover : 1000000000 ≤ t.nano := of_decide_eq_true hleap
    simp only [hleap, if_true]
    by_cases hforward : 2000000000 ≤ t.nano + nanos
    · rw [if_pos (by omega), if_pos hforward]
    · rw [if_neg (by omega), if_neg hforward]
      by_cases hback : nanos ≤ -1000000000
      · rw [if_pos (by omega), if_pos hback]
      · have hpart : nanos.tmod 1000000000 = nanos := by omega
        rw [if_neg (by omega), if_neg hback, hpart]
  · rw [if_neg hleap, if_neg hleap]

theorem of_ofSecond? {second : Int} {nano : Nat} (h : ofSecond? second nano = some u) :
    u.second = second ∧ u.nano = nano := by
  unfold ofSecond? at h
  split at h
  · cases h
    exact ⟨rfl, rfl⟩
  · cases h

theorem of_ofLinear? {nanos : Int} (h : ofLinear? nanos = some u) :
    u.linear = nanos ∧ u.nano < 1000000000 := by
  obtain ⟨hs, hn⟩ := of_ofSecond? h
  simp only [linear, nanosPerSecond] at *
  omega

/-- Where a move ends: as many nanoseconds on, but for the leap second that a move forward leaves. -/
theorem of_shift? (h : t.shift? a = some u) :
    (1000000000 ≤ t.nano ∧ -1000000000 < a ∧ t.nano + a < 2000000000 ∧ u.linear = t.linear + a ∧
        u.second = t.second) ∨
      u.nano < 1000000000 ∧
        (1000000000 ≤ t.nano ∧ 2000000000 ≤ t.nano + a ∧ u.linear = t.linear - nanosPerSecond + a ∨
          (t.nano < 1000000000 ∨ a ≤ -1000000000) ∧ u.linear = t.linear + a) := by
  have hleap : t.inLeap = decide (1000000000 ≤ t.nano) := rfl
  rw [shift?_eq, hleap] at h
  simp only [decide_eq_true_eq] at h
  split at h
  next hover =>
    split at h
    next hforward =>
      obtain ⟨hl, hn⟩ := of_ofLinear? h
      exact .inr ⟨hn, .inl ⟨hover, hforward, hl⟩⟩
    next hforward =>
      split at h
      next hback =>
        obtain ⟨hl, hn⟩ := of_ofLinear? h
        exact .inr ⟨hn, .inr ⟨.inr hback, hl⟩⟩
      next hback =>
        obtain ⟨hs, hn⟩ := of_ofSecond? h
        refine .inl ⟨hover, by omega, by omega, ?_, hs⟩
        simp only [linear, hs, hn]
        omega
  next hover =>
    obtain ⟨hl, hn⟩ := of_ofLinear? h
    exact .inr ⟨hn, .inr ⟨.inl (by omega), hl⟩⟩

/-- A longer move does not end earlier. -/
theorem shift?_mono (hab : a ≤ b) (hu : t.shift? a = some u) (hv : t.shift? b = some v) : u ≤ v := by
  have hn := t.nano_lt
  have hun := u.nano_lt
  have hvn := v.nano_lt
  have hua := of_shift? hu
  have hvb := of_shift? hv
  rw [le_iff]
  simp only [linear, nanosPerSecond] at hua hvb
  omega

theorem ofLinear?_isSome_iff (nanos : Int) : (ofLinear? nanos).isSome ↔
    firstSecond * nanosPerSecond ≤ nanos ∧ nanos < (lastSecond + 1) * nanosPerSecond := by
  have hvalid : (ofLinear? nanos).isSome ↔
      IsInstant (nanos / nanosPerSecond) (nanos % nanosPerSecond).toNat := by
    unfold ofLinear? ofSecond?
    split
    next h => exact iff_of_true rfl h
    next h => exact iff_of_false Bool.false_ne_true h
  rw [hvalid]
  simp only [IsInstant, firstSecond, lastSecond, nanosPerSecond]
  omega

/-- Where a move forward ends in the calendar, a shorter one does. -/
theorem shift?_isSome_of_le (ha : 0 ≤ a) (hab : a ≤ b) (h : (t.shift? b).isSome) :
    (t.shift? a).isSome := by
  obtain ⟨v, hv⟩ := Option.isSome_iff_exists.1 h
  have hlast := v.second_bounds
  have hfirst := t.second_bounds
  have hvb := of_shift? hv
  simp only [linear, nanosPerSecond] at hvb
  rw [shift?_eq]
  split
  next hleap =>
    have hover : 1000000000 ≤ t.nano := of_decide_eq_true hleap
    split
    next =>
      simp only [ofLinear?_isSome_iff, linear, firstSecond, lastSecond, nanosPerSecond]
      omega
    next =>
      -- within its leap second there is an instant for every nanosecond
      have hvalid := t.valid
      rw [if_neg (by omega), ofSecond?, dif_pos]
      · rfl
      · simp only [IsInstant] at hvalid ⊢
        omega
  next hleap =>
    have hover : t.nano < 1000000000 := Nat.not_le.1 fun h => hleap (decide_eq_true h)
    simp only [ofLinear?_isSome_iff, linear, firstSecond, lastSecond, nanosPerSecond]
    omega

@[simp] theorem shift?_zero (t : Instant) : t.shift? 0 = some t := by
  have hvalid := t.valid
  have hs : ∀ second nano, second = t.second → nano = t.nano → ofSecond? second nano = some t := by
    rintro _ _ rfl rfl
    exact dif_pos hvalid
  rw [shift?_eq]
  split
  next hleap =>
    rw [if_neg (by have := t.nano_lt; omega), if_neg (by omega)]
    exact hs _ _ rfl (by omega)
  next hleap =>
    have hover : t.nano < 1000000000 := Nat.not_le.1 fun h => hleap (decide_eq_true h)
    refine hs _ _ ?_ ?_
    · simp only [linear, nanosPerSecond]
      omega
    · simp only [linear, nanosPerSecond]
      omega

end FleetHealth.Instant
