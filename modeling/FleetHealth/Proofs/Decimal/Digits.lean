import FleetHealth.Decimal.Digits
import Mathlib.Algebra.Ring.Nat

/-!
# Reading digits back

Digits written for a number are read back as that number, with or without zeros in front.
-/
namespace FleetHealth.Decimal

/-- Whether the characters are all digits. -/
def IsNumeral (cs : List Char) : Prop := ∀ c ∈ cs, (digitValue? c).isSome = true

theorem digitValue?_digitChar (d : Nat) : digitValue? (digitChar d) = some (d % 10) := by
  have hall : ∀ r < 10, digitValue? (Char.ofNat (48 + r)) = some r := by decide
  exact hall (d % 10) (Nat.mod_lt d (by decide))

theorem isNumeral_digits (n : Nat) : IsNumeral (digits n) := by
  fun_induction digits n with
  | case1 n hn => simp [IsNumeral, digitValue?_digitChar]
  | case2 n hn ih =>
    intro c hc
    rcases List.mem_append.1 hc with hc | hc
    · exact ih c hc
    · rw [List.mem_singleton.1 hc, digitValue?_digitChar]
      rfl

theorem value_digits (n : Nat) : value (digits n) = n := by
  fun_induction digits n with
  | case1 n hn =>
    simp only [value, List.foldl_cons, List.foldl_nil, digitValue?_digitChar, Option.getD_some]
    omega
  | case2 n hn ih =>
    have hlast : value (digits (n / 10) ++ [digitChar n]) = 10 * value (digits (n / 10)) + n % 10 := by
      simp only [value, List.foldl_append, List.foldl_cons, List.foldl_nil, digitValue?_digitChar,
        Option.getD_some]
    rw [hlast, ih]
    omega

theorem length_digits_pos (n : Nat) : 0 < (digits n).length := by
  unfold digits
  split <;> simp

theorem length_digits_le {n width : Nat} (hwidth : 0 < width) (hn : n < 10 ^ width) :
    (digits n).length ≤ width := by
  fun_induction digits n generalizing width with
  | case1 n _ => exact hwidth
  | case2 n hten ih =>
    obtain ⟨w, rfl⟩ := Nat.exists_eq_succ_of_ne_zero (Nat.ne_of_gt hwidth)
    have hw : 0 < w := by
      rcases Nat.eq_zero_or_pos w with rfl | hw
      · omega
      · exact hw
    have hquot : n / 10 < 10 ^ w := Nat.div_lt_of_lt_mul (by rwa [← Nat.pow_succ'])
    have := ih hw hquot
    simp only [List.length_append, List.length_singleton]
    omega

theorem isNumeral_padded (width n : Nat) : IsNumeral (padded width n) := by
  intro c hc
  rcases List.mem_append.1 hc with hc | hc
  · rw [List.eq_of_mem_replicate hc]
    decide
  · exact isNumeral_digits n c hc

theorem value_padded (width n : Nat) : value (padded width n) = n := by
  have hzeros (k : Nat) (cs : List Char) : value (List.replicate k '0' ++ cs) = value cs := by
    induction k with
    | zero => rfl
    | succ k ih => exact ih
  exact (hzeros _ _).trans (value_digits n)

theorem length_padded {n width : Nat} (hwidth : 0 < width) (hn : n < 10 ^ width) :
    (padded width n).length = width := by
  have := length_digits_le hwidth hn
  simp only [padded, List.length_append, List.length_replicate]
  omega

theorem padded_ne_nil (width n : Nat) : padded width n ≠ [] :=
  List.append_ne_nil_of_right_ne_nil _ (List.ne_nil_of_length_pos (length_digits_pos n))

/-- A run of digits ends where a text goes on with something else. -/
theorem IsNumeral.takeWhile_append {cs rest : List Char} (h : IsNumeral cs)
    (hrest : ∀ c ∈ rest.head?, digitValue? c = none) :
    (cs ++ rest).takeWhile (fun c => (digitValue? c).isSome) = cs := by
  rw [List.takeWhile_append_of_pos h]
  cases rest with
  | nil => simp
  | cons c rest => simp [hrest c rfl]

end FleetHealth.Decimal
