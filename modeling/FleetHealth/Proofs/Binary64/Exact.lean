import FleetHealth.Proofs.Binary64.Within

/-!
# Arithmetic that does not round

Whole multiples of one power of two add up, and multiply, without rounding as long as the results have no
more digits than a double holds.
-/
namespace FleetHealth.Binary64

variable {x y : Float} {k l d e : ℤ}

/-- The double is the `k`-th multiple of a power of two. -/
def Multiple (k e : ℤ) (x : Float) : Prop := real x = k * (2 : ℕ) ^ e

theorem multiple_ofNat {n : ℕ} (hn : n < 2 ^ 53) : Multiple n 0 (Float.ofNat n) := by
  rw [Multiple, real_ofNat hn]
  norm_num

theorem abs_sum_le {α : Type} (count : α → ℤ) (items : List α) :
    |(items.map count).sum| ≤ (items.map fun a => |count a|).sum := by
  have h := Multiset.abs_sum_le_sum_abs (s := (items.map count : Multiset ℤ))
  rwa [Multiset.sum_coe, Multiset.map_coe, Multiset.sum_coe, List.map_map] at h

namespace Multiple

theorem add (hx : Multiple k e x) (hy : Multiple l e y) (hfinite : (x + y).isFinite = true)
    (hdigits : |k + l| ≤ 2 ^ 53) (he : -1074 ≤ e) : Multiple (k + l) e (x + y) := by
  refine Nearest.eq_of_digits ?_ hfinite hdigits he
  have h := nearest_add (isFinite_of_imp (fun hinf => isFinite_add_eq_false (.inl hinf)) hfinite)
    (isFinite_of_imp (fun hinf => isFinite_add_eq_false (.inr hinf)) hfinite)
  rw [hx, hy, ← add_mul] at h
  exact_mod_cast h

theorem sub (hx : Multiple k e x) (hy : Multiple l e y) (hfinite : (x - y).isFinite = true)
    (hdigits : |k - l| ≤ 2 ^ 53) (he : -1074 ≤ e) : Multiple (k - l) e (x - y) := by
  refine Nearest.eq_of_digits ?_ hfinite hdigits he
  have h := nearest_sub (isFinite_of_imp (fun hinf => isFinite_sub_eq_false (.inl hinf)) hfinite)
    (isFinite_of_imp (fun hinf => isFinite_sub_eq_false (.inr hinf)) hfinite)
  rw [hx, hy, ← sub_mul] at h
  exact_mod_cast h

theorem mul (hx : Multiple k d x) (hy : Multiple l e y) (hfinite : (x * y).isFinite = true)
    (hdigits : |k * l| ≤ 2 ^ 53) (he : -1074 ≤ d + e) : Multiple (k * l) (d + e) (x * y) := by
  refine Nearest.eq_of_digits ?_ hfinite hdigits he
  have h := nearest_mul (isFinite_of_imp (fun hinf => isFinite_mul_eq_false (.inl hinf)) hfinite)
    (isFinite_of_imp (fun hinf => isFinite_mul_eq_false (.inr hinf)) hfinite)
  rw [hx, hy, mul_mul_mul_comm, ← zpow_add₀ (Nat.cast_ne_zero.2 two_ne_zero)] at h
  exact_mod_cast h

theorem sum {α : Type} {term : α → Float} {count : α → ℤ} {items : List α}
    (hterm : ∀ a ∈ items, Multiple (count a) e (term a))
    (hfinite : (sumFrom 0.0 (items.map term)).isFinite = true)
    (hdigits : (items.map fun a => |count a|).sum ≤ 2 ^ 53) (he : -1074 ≤ e) :
    Multiple (items.map count).sum e (sumFrom 0.0 (items.map term)) := by
  induction items using List.reverseRecOn with
  | nil => simp [Multiple, sumFrom, real_zero]
  | append_singleton rest a ih =>
    simp only [List.forall_mem_append, List.forall_mem_singleton] at hterm
    rw [List.map_append, List.map_singleton, sumFrom_concat] at hfinite
    simp only [List.map_append, List.map_singleton, List.sum_append, List.sum_singleton,
      sumFrom_concat] at hdigits ⊢
    have hrest := ih hterm.1 (isFinite_of_imp (fun h => isFinite_add_eq_false (.inl h)) hfinite)
      (by linarith [abs_nonneg (count a)])
    refine hrest.add hterm.2 hfinite ((abs_add_le _ _).trans (hdigits.trans' ?_)) he
    exact add_le_add_left (abs_sum_le count rest) _

end Multiple

end FleetHealth.Binary64
