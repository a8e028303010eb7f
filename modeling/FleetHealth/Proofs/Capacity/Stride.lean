import FleetHealth.Proofs.Capacity.Thinning
import Mathlib.Algebra.Order.Floor.Div
import Mathlib.Data.List.Chain
import Mathlib.Tactic.Linarith

/-!
# The places that thinning keeps

A series over its budget is kept at the multiples of a stride and at its end. The stride is the least
one for which that fits the budget, so more than half of the budget is used.
-/
namespace FleetHealth.Capacity

variable {α : Type}

/-- The first multiples of a stride, zero included. -/
def multiples (stride count : Nat) : List Nat := (List.range count).map (stride * ·)

theorem length_multiples (stride count : Nat) : (multiples stride count).length = count := by
  simp [multiples]

theorem multiples_succ (stride count : Nat) :
    multiples stride (count + 1) = multiples stride count ++ [stride * count] := by
  simp [multiples, List.range_succ]

theorem lt_ceilDiv_iff {stride : Nat} (hs : 0 < stride) {n k : Nat} :
    k < n ⌈/⌉ stride ↔ stride * k < n := by
  rw [← not_le, ceilDiv_le_iff_le_mul hs, not_le]

/-- One item more needs one multiple more where it stands on the stride. -/
theorem succ_ceilDiv {stride : Nat} (hs : 0 < stride) (n : Nat) :
    (n + 1) ⌈/⌉ stride = n ⌈/⌉ stride + if n % stride = 0 then 1 else 0 := by
  have hn := Nat.div_add_mod n stride
  have hlt := Nat.mod_lt n hs
  generalize n / stride = q at hn
  generalize n % stride = r at hn hlt
  subst hn
  have hceil (m : Nat) (h : stride * q < m) (h' : m ≤ stride * (q + 1)) : m ⌈/⌉ stride = q + 1 :=
    Nat.le_antisymm ((ceilDiv_le_iff_le_mul hs).2 h') ((lt_ceilDiv_iff hs).2 h)
  rw [hceil _ (by omega) (by rw [Nat.mul_succ]; omega)]
  split
  next h0 =>
    have hexact : (stride * q + 0) ⌈/⌉ stride = q := smul_ceilDiv hs q
    rw [h0, hexact]
  next h0 => rw [hceil _ (by omega) (by rw [Nat.mul_succ]; omega)]

/-- What stands at the multiples of a stride. -/
theorem everyNth_eq {stride : Nat} (hs : 0 < stride) (l : List α) :
    (everyNth stride l).map some = (multiples stride (l.length ⌈/⌉ stride)).map (l[·]?) := by
  induction l using List.reverseRecOn with
  | nil => simp [everyNth, everyNth.go, multiples]
  | append_singleton l a ih =>
    have hbefore : (multiples stride (l.length ⌈/⌉ stride)).map ((l ++ [a])[·]?) =
        (multiples stride (l.length ⌈/⌉ stride)).map (l[·]?) := by
      refine List.map_congr_left fun place hp => ?_
      obtain ⟨k, hk, rfl⟩ := List.mem_map.1 hp
      exact List.getElem?_append_left ((lt_ceilDiv_iff hs).1 (List.mem_range.1 hk))
    rw [everyNth_append stride hs, List.map_append, ih, List.length_append, List.length_singleton,
      succ_ceilDiv hs]
    split
    next h0 =>
      -- the multiple that is added is the place of the added item
      have hplace : stride * (l.length ⌈/⌉ stride) = l.length := by
        obtain ⟨q, hq⟩ := Nat.dvd_of_mod_eq_zero h0
        have hexact : stride * q ⌈/⌉ stride = q := smul_ceilDiv hs q
        rw [hq, hexact]
      simp [multiples_succ, hbefore, hplace]
    next => simp [hbefore]

/-- Places of a list of `n` items from its first to its last, on a stride all but the last one, and
none of them two strides or more after the one before. -/
structure EvenPlaces (n stride : Nat) (places : List Nat) : Prop where
  ascending : places.Pairwise (· < ·)
  first : places.head? = some 0
  last : places.getLast? = some (n - 1)
  onStride : ∀ place ∈ places.dropLast, stride ∣ place
  gaps : places.IsChain fun i j => j < i + 2 * stride

theorem multiples_ascending {stride : Nat} (hs : 0 < stride) (count : Nat) :
    (multiples stride count).Pairwise (· < ·) := by
  rw [multiples, List.pairwise_map]
  exact List.pairwise_lt_range.imp fun h => Nat.mul_lt_mul_of_pos_left h hs

theorem multiples_gaps {stride : Nat} (hs : 0 < stride) (count : Nat) :
    (multiples stride count).IsChain fun i j => j < i + 2 * stride := by
  induction count with
  | zero => simp [multiples]
  | succ count ih =>
    rw [multiples_succ, List.isChain_append]
    refine ⟨ih, .singleton _, fun i hi j hj => ?_⟩
    rcases count with _ | count
    · simp [multiples] at hi
    · simp only [multiples_succ, List.getLast?_concat, List.head?_cons, Option.mem_some_iff] at hi hj
      rw [← hi, ← hj, Nat.mul_succ]
      omega

/-- Some multiples and a place after them, less than two strides after the last. -/
theorem evenPlaces_multiples {n stride count : Nat} (hs : 0 < stride) (hcount : 0 < count)
    (hafter : stride * (count - 1) < n - 1) (hnear : n - 1 < stride * (count + 1)) :
    EvenPlaces n stride (multiples stride count ++ [n - 1]) := by
  obtain ⟨count, rfl⟩ := Nat.exists_eq_add_of_le' hcount
  rw [Nat.add_sub_cancel] at hafter
  rw [Nat.mul_succ, Nat.mul_succ] at hnear
  refine ⟨?_, ?_, List.getLast?_concat .., ?_, ?_⟩
  · rw [List.pairwise_append]
    refine ⟨multiples_ascending hs _, List.pairwise_singleton .., fun i hi j hj => ?_⟩
    obtain ⟨k, hk, rfl⟩ := List.mem_map.1 hi
    rw [List.mem_singleton.1 hj]
    have hle : stride * k ≤ stride * count :=
      Nat.mul_le_mul_left _ (Nat.le_of_lt_succ (List.mem_range.1 hk))
    omega
  · simp [multiples, List.range_succ_eq_map]
  · rw [List.dropLast_concat]
    intro place hp
    obtain ⟨k, _, rfl⟩ := List.mem_map.1 hp
    exact Nat.dvd_mul_right stride k
  · rw [List.isChain_append]
    refine ⟨multiples_gaps hs _, .singleton _, fun i hi j hj => ?_⟩
    simp only [multiples_succ, List.getLast?_concat, List.head?_cons, Option.mem_some_iff] at hi hj
    omega

theorem ceilDiv_ceilDiv_le {n budget : Nat} (hb : 0 < budget) (h : budget < n) :
    n ⌈/⌉ (n ⌈/⌉ budget) ≤ budget := by
  have hs : 0 < n ⌈/⌉ budget := (lt_ceilDiv_iff hb).2 (by omega)
  have hcover : n ≤ budget * (n ⌈/⌉ budget) := le_smul_ceilDiv hb
  rwa [ceilDiv_le_iff_le_mul hs, Nat.mul_comm]

/-- The least stride that fits a budget uses more than half of it. -/
theorem budget_lt_two_mul {n budget : Nat} (hb : 0 < budget) (h : budget < n) :
    budget < 2 * (n ⌈/⌉ (n ⌈/⌉ budget)) := by
  have hs : 0 < n ⌈/⌉ budget := (lt_ceilDiv_iff hb).2 (by omega)
  have hcover : n ≤ (n ⌈/⌉ budget) * (n ⌈/⌉ (n ⌈/⌉ budget)) := le_smul_ceilDiv hs
  have hleast : budget * (n ⌈/⌉ budget - 1) < n := (lt_ceilDiv_iff hb).1 (by omega)
  generalize n ⌈/⌉ (n ⌈/⌉ budget) = count at hcover
  obtain ⟨s, hs'⟩ := Nat.exists_eq_add_of_le' hs
  rw [hs'] at hcover hleast
  rw [Nat.add_sub_cancel] at hleast
  by_contra hle
  nlinarith

/-- Items kept at multiples of a stride, and the last one after them. -/
theorem exists_evenPlaces {before kept : List α} {last : α} {stride count : Nat} (hs : 0 < stride)
    (hkept : kept.map some = (multiples stride count).map (before[·]?)) (hcount : 0 < count)
    (hafter : stride * (count - 1) < before.length)
    (hnear : before.length < stride * (count + 1)) :
    ∃ places, EvenPlaces (before ++ [last]).length stride places ∧
      (kept ++ [last]).map some = places.map ((before ++ [last])[·]?) := by
  have hlength : (before ++ [last]).length - 1 = before.length := by simp
  refine ⟨multiples stride count ++ [before.length], ?_, ?_⟩
  · rw [← hlength] at hafter hnear ⊢
    exact evenPlaces_multiples hs hcount hafter hnear
  · have hbefore : (multiples stride count).map (before[·]?) =
        (multiples stride count).map ((before ++ [last])[·]?) := by
      refine List.map_congr_left fun place hp => (List.getElem?_append_left ?_).symm
      obtain ⟨k, hk, rfl⟩ := List.mem_map.1 hp
      have hle : stride * k ≤ stride * (count - 1) :=
        Nat.mul_le_mul_left _ (Nat.le_sub_one_of_lt (List.mem_range.1 hk))
      exact hle.trans_lt hafter
    simp [hkept, hbefore]

/-- A long series is thinned to what stands on the stride before its last item, and that item. The
last one on the stride makes room where the budget is full and the last item is not on it. -/
theorem thin_concat (before : List Sample) (last : Sample) {budget : Nat} (hb : 2 ≤ budget)
    (hlong : budget < (before ++ [last]).length) :
    let stride := (before ++ [last]).length ⌈/⌉ budget
    let picked := everyNth stride before
    thin (before ++ [last]) budget =
      (if before.length % stride ≠ 0 ∧ budget ≤ picked.length then picked.dropLast else picked) ++
        [last] := by
  intro stride picked
  have hstride : 0 < stride := (lt_ceilDiv_iff (by omega)).2 (by omega)
  have hthin : thin (before ++ [last]) budget =
      if ((before ++ [last]).length - 1) % stride = 0 then everyNth stride (before ++ [last])
      else
        (if budget ≤ (everyNth stride (before ++ [last])).length then
          (everyNth stride (before ++ [last])).dropLast else everyNth stride (before ++ [last])) ++
        (before ++ [last]).getLast?.toList := if_neg (by omega)
  rw [hthin, everyNth_append stride hstride]
  by_cases h0 : before.length % stride = 0
  · simp [h0, picked]
  · simp [h0, picked]

/-- Thinning to a budget of two or more leaves a series within it alone. A longer one is kept at even
places: for the least stride that fits the budget, from the first place to the last, on multiples of the
stride but for the last one, and with gaps of less than two strides. More than half of the budget is
used. -/
theorem thin_evenly (samples : List Sample) {budget : Nat} (hb : 2 ≤ budget) :
    (samples.length ≤ budget → thin samples budget = samples) ∧
    (budget < samples.length →
      (∃ places, EvenPlaces samples.length (samples.length ⌈/⌉ budget) places ∧
        (thin samples budget).map some = places.map (samples[·]?)) ∧
      budget < 2 * (thin samples budget).length ∧ (thin samples budget).length ≤ budget) := by
  refine ⟨thin_of_length_le, fun hlong => ?_⟩
  obtain rfl | ⟨before, last, rfl⟩ := samples.eq_nil_or_concat'
  · simp at hlong
  have hpositive : 0 < budget := by omega
  have hhalf := budget_lt_two_mul hpositive hlong
  have hs : 0 < (before ++ [last]).length ⌈/⌉ budget := (lt_ceilDiv_iff hpositive).2 (by omega)
  have hfits := ceilDiv_ceilDiv_le hpositive hlong
  have hthin := thin_concat before last hb hlong
  generalize (before ++ [last]).length ⌈/⌉ budget = stride at *
  have hpicked := everyNth_eq hs before
  have hcount : (everyNth stride before).length = before.length ⌈/⌉ stride := by
    simpa [length_multiples] using congrArg List.length hpicked
  have hone : (before ++ [last]).length = before.length + 1 := by simp
  rw [hone] at hlong hhalf hfits
  rw [succ_ceilDiv hs] at hhalf hfits
  -- the places before the last one reach up to the stride that the last one lies in
  have hpos : 0 < before.length ⌈/⌉ stride := (lt_ceilDiv_iff hs).2 (by omega)
  have hafter : stride * (before.length ⌈/⌉ stride - 1) < before.length :=
    (lt_ceilDiv_iff hs).1 (by omega)
  have hcover : before.length ≤ stride * (before.length ⌈/⌉ stride) := le_smul_ceilDiv hs
  generalize before.length ⌈/⌉ stride = count at *
  simp only [hcount] at hthin
  rw [hthin]
  split
  next hfull =>
    rw [if_neg hfull.1] at hhalf hfits
    have hnear : before.length < stride * (count - 1 + 1) := by
      rw [Nat.sub_add_cancel hpos]
      refine hcover.lt_of_ne fun he => hfull.1 ?_
      rw [he, Nat.mul_mod_right]
    have hkept : (everyNth stride before).dropLast.map some =
        (multiples stride (count - 1)).map (before[·]?) := by
      obtain ⟨c, rfl⟩ := Nat.exists_eq_add_of_le' hpos
      rw [List.map_dropLast, hpicked, multiples_succ]
      simp
    have hless : stride * (count - 1 - 1) ≤ stride * (count - 1) :=
      Nat.mul_le_mul_left _ (Nat.sub_le ..)
    refine ⟨exists_evenPlaces hs hkept (by omega) (hless.trans_lt hafter) hnear, ?_⟩
    simp only [List.length_append, List.length_dropLast, List.length_singleton]
    omega
  next hroom =>
    refine ⟨exists_evenPlaces hs hpicked hpos hafter (by rw [Nat.mul_succ]; omega), ?_⟩
    simp only [List.length_append, List.length_singleton]
    split at hhalf <;> split at hfits <;> omega

/-- Eight samples, told apart by their values. -/
def eightSamples : List Sample := (List.range 8).map fun i => ⟨.epoch, Float.ofNat i⟩

/-- The last multiple of the stride makes room for the newest sample. -/
theorem thin_evenly_eightSamples :
    2 ≤ 3 ∧ 3 < eightSamples.length ∧
      (∃ places, EvenPlaces 8 3 places ∧
        (thin eightSamples 3).map some = places.map (eightSamples[·]?)) ∧
      3 < 2 * (thin eightSamples 3).length ∧ (thin eightSamples 3).length ≤ 3 := by
  have hlong : 3 < eightSamples.length := by decide
  have hb : 2 ≤ 3 := by decide
  exact ⟨hb, hlong, (thin_evenly eightSamples hb).2 hlong⟩

end FleetHealth.Capacity
