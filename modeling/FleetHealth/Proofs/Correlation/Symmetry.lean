import FleetHealth.Correlation.Coefficient
import FleetHealth.Proofs.Binary64.Decimals
import FleetHealth.Proofs.Correlation.Alignment

/-!
# Correlation either way

Series in time order are paired in time order, whichever of them is walked and whichever is looked up,
so exchanging them exchanges the columns. The coefficient treats the two columns alike, up to the order
in which a product takes its factors.
-/
namespace FleetHealth

open Binary64

open Float.Model Float.Model.UnpackedFloat in
/-- The order of the factors does not matter to a product. -/
theorem Binary64.mul_symm (x y : Float) : x * y = y * x := by
  have hsign (s s' : Sign) : s * s' = s' * s := by cases s <;> cases s' <;> rfl
  have hunpacked (u v : UnpackedFloat) : UnpackedFloat.mul .binary64 u v = .mul .binary64 v u := by
    cases u <;> cases v <;> try rfl
    case finite.finite s m e _ s' m' e' _ =>
      simp only [UnpackedFloat.mul, hsign s, Nat.mul_comm m, Int.add_comm e]
    all_goals exact congrArg _ (hsign _ _)
  change Float.ofModel (.pack (.mul .binary64 x.toModel.unpack y.toModel.unpack)) = _
  rw [hunpacked]
  rfl

namespace Correlation

/-- The coefficient is nothing, or a quotient that is cut to what a coefficient can be. -/
theorem coefficient_cases (pairs : List (Float × Float)) :
    coefficient pairs = 0.0 ∨ ∃ r, r.isFinite = true ∧ coefficient pairs = clamp (-1.0) 1.0 r := by
  simp only [coefficient]
  split
  · exact .inl rfl
  split
  · exact .inl rfl
  split
  · exact .inl rfl
  split
  next h => exact .inr ⟨_, h, rfl⟩
  next => exact .inl rfl

theorem coefficient_bounds (pairs : List (Float × Float)) :
    (coefficient pairs).isNaN = false ∧ -1.0 ≤ coefficient pairs ∧ coefficient pairs ≤ 1.0 := by
  rcases coefficient_cases pairs with h | ⟨r, hr, h⟩
  · rw [h]
    decide
  · have hfinite : (clamp (-1.0) 1.0 r).isFinite = true := isFinite_clamp hr (by decide) (by decide)
    have hnumber := isNaN_eq_false hfinite
    rw [h]
    exact ⟨hnumber, (clamp_bounds (by decide) r).resolve_left (Bool.eq_false_iff.1 hnumber)⟩

/-- The coefficient of pairs is that of the pairs the other way round. -/
theorem coefficient_swap (pairs : List (Float × Float)) :
    coefficient (pairs.map Prod.swap) = coefficient pairs := by
  have hproducts : (pairs.map fun p => p.2 * p.1) = pairs.map fun p => p.1 * p.2 :=
    List.map_congr_left fun p _ => mul_symm p.2 p.1
  simp only [coefficient, List.length_map, count, List.map_map, Function.comp_def, Prod.fst_swap,
    Prod.snd_swap, hproducts]
  rw [Bool.or_comm, mul_symm (spread _ _ _), mul_symm (sumFrom 0.0 (pairs.map fun p => p.2))]
  rfl

variable {a b : List Sample} {times times' : List Instant} {xs xs' ys ys' : List Float}

/-- Two columns of values that stand in time order, one pair for each instant at which both series have
a finite value: the last that each of them has there. -/
structure PairsUp (a b : List Sample) (times : List Instant) (xs ys : List Float) : Prop where
  ascending : times.Pairwise (· < ·)
  shared : ∀ t, t ∈ times ↔ t ∈ sharedInstants a b
  xs : xs.map some = times.map (lastAt a)
  ys : ys.map some = times.map (lastAt b)

namespace PairsUp

theorem swap (h : PairsUp a b times xs ys) : PairsUp b a times ys xs :=
  ⟨h.ascending, fun t => by rw [h.shared, sharedInstants, Finset.inter_comm, sharedInstants], h.ys, h.xs⟩

theorem length_eq (h : PairsUp a b times xs ys) : xs.length = ys.length := by
  have hxs := congrArg List.length h.xs
  have hys := congrArg List.length h.ys
  simp only [List.length_map] at hxs hys
  rw [hxs, hys]

theorem unique (h : PairsUp a b times xs ys) (h' : PairsUp a b times' xs' ys') :
    xs = xs' ∧ ys = ys' := by
  obtain rfl := Instant.eq_of_ascending h.ascending h'.ascending fun t => by rw [h.shared, h'.shared]
  have hinj := List.map_injective_iff.2 (Option.some_injective Float)
  exact ⟨hinj (h.xs.trans h'.xs.symm), hinj (h.ys.trans h'.ys.symm)⟩

end PairsUp

theorem exists_pairsUp (ha : a.Pairwise fun s t => s.time ≤ t.time) (b : List Sample) :
    ∃ times, PairsUp a b times (columns a b).1 (columns a b).2 := by
  obtain ⟨times, h⟩ := exists_covers a b
  have hfinite : ((Series.finite a).map (·.time)).Pairwise (· ≤ ·) :=
    List.pairwise_map.2 (ha.filter _)
  have hascending : times.Pairwise (· < ·) :=
    (hfinite.sublist h.sublist).imp₂ (fun _ _ hle hne => Instant.lt_iff_le_and_ne.2 ⟨hle, hne⟩) h.nodup
  exact ⟨times, hascending, h.mem, h.xs, h.ys⟩

/-- Series in time order pair up the same whichever of them is walked. -/
theorem columns_swap (ha : a.Pairwise fun s t => s.time ≤ t.time)
    (hb : b.Pairwise fun s t => s.time ≤ t.time) : columns b a = (columns a b).swap := by
  obtain ⟨_, h⟩ := exists_pairsUp ha b
  obtain ⟨_, h'⟩ := exists_pairsUp hb a
  obtain ⟨hxs, hys⟩ := h'.unique h.swap
  exact Prod.ext hxs hys

/-- Correlation is symmetric. Series in time order, whatever their values and however often an instant
is repeated, are paired at the instants at which both have a finite value, the last of each, and
exchanging the series exchanges the columns; exchanging two columns, of any values and lengths, leaves
the coefficient as it is, a number within [-1, 1]. So two series have one coefficient. -/
theorem correlation_symmetric :
    (∀ a b : List Sample, (a.Pairwise fun s t => s.time ≤ t.time) →
      (b.Pairwise fun s t => s.time ≤ t.time) →
        columns b a = (columns a b).swap ∧
        (columns a b).1.length = (columns a b).2.length ∧
        (∃ times, PairsUp a b times (columns a b).1 (columns a b).2) ∧
        coefficient (align b a) = coefficient (align a b)) ∧
    ∀ xs ys : List Float,
      coefficient (ys.zip xs) = coefficient (xs.zip ys) ∧
      (coefficient (xs.zip ys)).isNaN = false ∧
      -1.0 ≤ coefficient (xs.zip ys) ∧ coefficient (xs.zip ys) ≤ 1.0 := by
  have hcolumns (xs ys : List Float) : coefficient (ys.zip xs) = coefficient (xs.zip ys) := by
    rw [← List.zip_swap, coefficient_swap]
  refine ⟨fun a b ha hb => ?_, fun xs ys => ⟨hcolumns xs ys, coefficient_bounds _⟩⟩
  have hswap := columns_swap ha hb
  obtain ⟨times, h⟩ := exists_pairsUp ha b
  refine ⟨hswap, h.length_eq, ⟨times, h⟩, ?_⟩
  rw [align, hswap, align]
  exact hcolumns _ _

/-- Two instants are shared, each given twice to one series or the other, once as what is no number. -/
theorem correlation_symmetric_repeated :
    let a : List Sample := [⟨.epoch, 1.0⟩, ⟨.epoch, nan⟩, ⟨⟨60, 0, by decide⟩, 2.0⟩,
      ⟨⟨60, 0, by decide⟩, 3.0⟩]
    let b : List Sample := [⟨.epoch, 5.0⟩, ⟨.epoch, 4.0⟩, ⟨⟨60, 0, by decide⟩, 6.0⟩,
      ⟨⟨120, 0, by decide⟩, infinity⟩]
    (a.Pairwise fun s t => s.time ≤ t.time) ∧ (b.Pairwise fun s t => s.time ≤ t.time) ∧
      columns a b = ([1.0, 3.0], [4.0, 6.0]) ∧ columns b a = ([4.0, 6.0], [1.0, 3.0]) ∧
      coefficient (align a b) = 1.0 ∧ coefficient (align b a) = 1.0 := by
  intro a b
  have ha : a.Pairwise fun s t => s.time ≤ t.time := by decide
  have hb : b.Pairwise fun s t => s.time ≤ t.time := by decide
  have hcolumns : columns a b = ([1.0, 3.0], [4.0, 6.0]) := by decide +kernel
  have hcoefficient : coefficient (align a b) = 1.0 := by
    rw [align, hcolumns]
    decide +kernel
  obtain ⟨hswap, _, _, hsame⟩ := correlation_symmetric.1 a b ha hb
  exact ⟨ha, hb, hcolumns, by rw [hswap, hcolumns, Prod.swap], hcoefficient, hsame.trans hcoefficient⟩

end Correlation

end FleetHealth
