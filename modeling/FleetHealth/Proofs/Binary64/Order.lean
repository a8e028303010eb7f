import FleetHealth.Binary64
import Mathlib

/-!
# Order of doubles

The sign bit and the bits of the magnitude give every double that is a number an integer place, and
doubles compare as their places. NaN has no place and compares with nothing.
-/
namespace FleetHealth.Binary64

open Float.Model Float.Model.UnpackedFloat

/-- The magnitude bits of infinity; those of a finite double are smaller, those of NaN greater. -/
def infinityBits : Nat := 0x7FF0000000000000

theorem magnitudeBits_eq (x : Float) : magnitudeBits x = x.toBits.toNat % 2 ^ 63 := by
  rw [magnitudeBits, UInt64.toNat_and]
  exact Nat.and_two_pow_sub_one_eq_mod _ 63

theorem signBit_eq (x : Float) : signBit x = decide (2 ^ 63 ≤ x.toBits.toNat) := by
  have h := x.toBits.toNat_lt
  rw [signBit, Bool.eq_iff_iff, beq_iff_eq, decide_eq_true_iff, ← UInt64.toNat_inj,
    UInt64.toNat_shiftRight, Nat.shiftRight_eq_div_pow]
  simp only [UInt64.reduceToNat, Nat.reduceMod, Nat.reducePow]
  omega

theorem toNat_unpackMantissa (b : BitVec 64) :
    (@unpackMantissa .binary64 b).toNat = b.toNat % 2 ^ 52 := by
  simp [unpackMantissa, BitVec.extractLsb, BitVec.extractLsb'_toNat]

theorem toNat_unpackExponent (b : BitVec 64) :
    (@unpackExponent .binary64 b).toNat = b.toNat / 2 ^ 52 % 2 ^ 11 := by
  simp [unpackExponent, BitVec.extractLsb, BitVec.extractLsb'_toNat, Nat.shiftRight_eq_div_pow]

theorem toNat_unpackSign (b : BitVec 64) :
    (@unpackSign .binary64 b).toNat = b.toNat / 2 ^ 63 := by
  have h := b.isLt
  simp [unpackSign, BitVec.extractLsb, BitVec.extractLsb'_toNat, Nat.shiftRight_eq_div_pow]
  omega

/-- What unpacking binary64 numbers gives. -/
def Canonical : UnpackedFloat → Prop
  | .notANumber => False
  | .infinity _ | .zero _ => True
  | .finite _ m e _ => m < 2 ^ 53 ∧ -1074 ≤ e ∧ e ≤ 971 ∧ (2 ^ 52 ≤ m ∨ e = -1074)

/-- The signed bits of an unpacked number. -/
def place : UnpackedFloat → Int
  | .notANumber | .zero _ => 0
  | .infinity s => s.apply infinityBits
  | .finite s m e _ => s.apply ((e + 1074) * 2 ^ 52 + m)

theorem compare_of_lt {a b : Int} (h : a < b) : some Ordering.lt = some (compare a b) :=
  congrArg some (compare_lt_iff_lt.2 h).symm

theorem compare_of_gt {a b : Int} (h : b < a) : some Ordering.gt = some (compare a b) :=
  congrArg some (compare_gt_iff_gt.2 h).symm

theorem compare_neg (a b : Int) : (compare a b).swap = compare (-a) (-b) := by
  rw [Int.compare_swap, Int.compare_eq_ite_lt, Int.compare_eq_ite_lt]
  simp only [Int.neg_lt_neg_iff]

/-- Finite magnitudes lie between those of zero and infinity. -/
theorem place_finite_bounds {m : Nat} {e : Int} {h : 0 < m} {s : Sign}
    (hc : Canonical (.finite s m e h)) :
    0 < (e + 1074) * 2 ^ 52 + (m : Int) ∧ (e + 1074) * 2 ^ 52 + (m : Int) < infinityBits := by
  obtain ⟨hm, hl, hu, _⟩ := hc
  rw [infinityBits]
  omega

/-- A greater exponent makes a greater magnitude, since it leaves no room for small significands. -/
theorem compare_magnitudes {m m' : Nat} {e e' : Int} {h : 0 < m} {h' : 0 < m'} {s s' : Sign}
    (hc : Canonical (.finite s m e h)) (hc' : Canonical (.finite s' m' e' h')) :
    (compare e e').then (compare m m') =
      compare ((e + 1074) * 2 ^ 52 + (m : Int)) ((e' + 1074) * 2 ^ 52 + (m' : Int)) := by
  obtain ⟨hm, hl, _, hn⟩ := hc
  obtain ⟨hm', hl', _, hn'⟩ := hc'
  rcases lt_trichotomy e e' with he | rfl | he
  · have hp : (e + 1074) * 2 ^ 52 + (m : Int) < (e' + 1074) * 2 ^ 52 + (m' : Int) := by omega
    rw [compare_lt_iff_lt.2 he, compare_lt_iff_lt.2 hp]
    rfl
  · rw [compare_eq_iff_eq.2 rfl, Ordering.eq_then, Int.compare_eq_ite_lt, Nat.compare_eq_ite_lt]
    simp only [Int.add_lt_add_iff_left, Int.ofNat_lt]
  · have hp : (e' + 1074) * 2 ^ 52 + (m' : Int) < (e + 1074) * 2 ^ 52 + (m : Int) := by omega
    rw [compare_gt_iff_gt.2 he, compare_gt_iff_gt.2 hp]
    rfl

/-- Canonical numbers compare as their places. -/
theorem compare_place {u v : UnpackedFloat} (hu : Canonical u) (hv : Canonical v) :
    u.compare v = some (compare (place u) (place v)) := by
  cases u with
  | notANumber => exact hu.elim
  -- the signs decide, or the kinds do: the finite places lie between those of the two others
  | infinity s =>
    cases v with
    | notANumber => exact hv.elim
    | infinity s' => cases s <;> cases s' <;> decide
    | zero s' => cases s <;> cases s' <;> decide
    | finite s' m' e' h' =>
      obtain ⟨hl', hu'⟩ := place_finite_bounds hv
      cases s with
      | negative => exact compare_of_lt (by cases s' <;> simp only [place, Sign.apply] <;> omega)
      | positive => exact compare_of_gt (by cases s' <;> simp only [place, Sign.apply] <;> omega)
  | zero s =>
    cases v with
    | notANumber => exact hv.elim
    | infinity s' => cases s <;> cases s' <;> decide
    | zero s' => rfl
    | finite s' m' e' h' =>
      obtain ⟨hl', hu'⟩ := place_finite_bounds hv
      cases s' with
      | negative => exact compare_of_gt (by simp only [place, Sign.apply]; omega)
      | positive => exact compare_of_lt (by simp only [place, Sign.apply]; omega)
  | finite s m e h =>
    obtain ⟨hl, hr⟩ := place_finite_bounds hu
    cases v with
    | notANumber => exact hv.elim
    | infinity s' =>
      cases s' with
      | negative =>
        cases s <;> exact compare_of_gt (by simp only [place, Sign.apply]; omega)
      | positive =>
        cases s <;> exact compare_of_lt (by simp only [place, Sign.apply]; omega)
    | zero s' =>
      cases s with
      | negative => exact compare_of_lt (by simp only [place, Sign.apply]; omega)
      | positive => exact compare_of_gt (by simp only [place, Sign.apply]; omega)
    | finite s' m' e' h' =>
      obtain ⟨hl', hr'⟩ := place_finite_bounds hv
      -- two finite numbers of one sign are left to their fields
      have hc := compare_magnitudes hu hv
      cases s with
      | negative =>
        cases s' with
        | negative => exact congrArg some ((congrArg Ordering.swap hc).trans (compare_neg _ _))
        | positive => exact compare_of_lt (by simp only [place, Sign.apply]; omega)
      | positive =>
        cases s' with
        | negative => exact compare_of_gt (by simp only [place, Sign.apply]; omega)
        | positive => exact congrArg some hc

theorem ofBitVec_unpackSign (b : BitVec 64) :
    Sign.ofBitVec (@unpackSign .binary64 b) =
      if 2 ^ 63 ≤ b.toNat then .negative else .positive := by
  have h := toNat_unpackSign b
  have hb := b.isLt
  rw [Sign.ofBitVec]
  by_cases hn : 2 ^ 63 ≤ b.toNat
  · rw [if_pos hn, if_neg]
    intro hz
    rw [hz] at h
    simp at h
    omega
  · rw [if_neg hn, if_pos]
    apply BitVec.eq_of_toNat_eq
    rw [h]
    simp
    omega

theorem toNat_magnitude (b : BitVec 64) :
    (@unpackExponent .binary64 b).toNat * 2 ^ 52 +
      (@unpackMantissa .binary64 b).toNat = b.toNat % 2 ^ 63 := by
  rw [toNat_unpackExponent, toNat_unpackMantissa]
  omega

theorem toNat_pos {mantissa : BitVec 52} (h : mantissa ≠ 0#52) : 0 < mantissa.toNat :=
  Nat.pos_of_ne_zero fun hz => h (BitVec.eq_of_toNat_eq hz)

def ofFields (s : Sign) (exponent : BitVec 11) (mantissa : BitVec 52) : UnpackedFloat :=
  if exponent = -1#11 then
    if mantissa = 0#52 then .infinity s else .notANumber
  else if exponent = 0#11 then
    if h : mantissa = 0#52 then .zero s else .finite s mantissa.toNat (-1074) (toNat_pos h)
  else .finite s (2 ^ 52 + mantissa.toNat) (exponent.toNat - 1075) (by omega)

theorem toNat_implicit (mantissa : BitVec 52) :
    (1#1 ++ mantissa).toNat = 2 ^ 52 + mantissa.toNat := by
  rw [BitVec.toNat_append, ← Nat.shiftLeft_add_eq_or_of_lt mantissa.isLt]
  rfl

theorem finite_congr {s : Sign} {m m' : Nat} {e e' : Int} {h : 0 < m} {h' : 0 < m'}
    (hm : m = m') (he : e = e') : UnpackedFloat.finite s m e h = .finite s m' e' h' := by
  subst hm he
  rfl

theorem unpack_eq_ofFields (b : BitVec 64) :
    UnpackedFloat.unpack .binary64 b =
      ofFields (Sign.ofBitVec (@unpackSign .binary64 b))
        (@unpackExponent .binary64 b) (@unpackMantissa .binary64 b) := by
  have hbias : ((Format.binary64.exponentBias : Nat) : Int) + 52 = 1075 := rfl
  simp only [UnpackedFloat.unpack, ofFields]
  split
  next => rfl
  next hmax =>
    split
    next hmin =>
      split
      next => rfl
      next =>
        refine finite_congr rfl ?_
        rw [hmin]
        rfl
    next => exact finite_congr (toNat_implicit _) rfl

abbrev magnitude (exponent : BitVec 11) (mantissa : BitVec 52) : Nat :=
  exponent.toNat * 2 ^ 52 + mantissa.toNat

theorem ofFields_nan (s : Sign) {exponent : BitVec 11} {mantissa : BitVec 52}
    (h : infinityBits < magnitude exponent mantissa) :
    ofFields s exponent mantissa = .notANumber := by
  have hm := mantissa.isLt
  have he := exponent.isLt
  rw [infinityBits] at h
  have hmax : exponent = -1#11 := by
    apply BitVec.eq_of_toNat_eq
    rw [magnitude] at h
    rw [show (-1#11).toNat = 2047 from rfl]
    omega
  have hz : mantissa ≠ 0#52 := fun hz => by
    rw [magnitude, hz, hmax] at h
    exact absurd h (by decide)
  rw [ofFields, if_pos hmax, if_neg hz]

theorem ofFields_place (s : Sign) {exponent : BitVec 11} {mantissa : BitVec 52}
    (h : magnitude exponent mantissa ≤ infinityBits) :
    Canonical (ofFields s exponent mantissa) ∧
      place (ofFields s exponent mantissa) = s.apply (magnitude exponent mantissa) := by
  have hm := mantissa.isLt
  rw [infinityBits] at h
  by_cases hmax : exponent = -1#11
  · subst hmax
    have hz : mantissa = 0#52 := by
      apply BitVec.eq_of_toNat_eq
      rw [magnitude, show (-1#11).toNat = 2047 from rfl] at h
      rw [show (0#52).toNat = 0 from rfl]
      omega
    subst hz
    cases s <;> exact ⟨trivial, rfl⟩
  · have hne : exponent.toNat ≠ 2047 := fun h => hmax (BitVec.eq_of_toNat_eq h)
    by_cases hmin : exponent = 0#11
    · have h0 : exponent.toNat = 0 := by rw [hmin]; rfl
      by_cases hz : mantissa = 0#52
      · rw [ofFields, if_neg hmax, if_pos hmin, dif_pos hz, magnitude, h0, hz]
        exact ⟨trivial, by cases s <;> rfl⟩
      · rw [ofFields, if_neg hmax, if_pos hmin, dif_neg hz]
        refine ⟨?_, ?_⟩
        · simp only [Canonical, or_true, and_true]
          omega
        · rw [place, magnitude, h0, Nat.zero_mul, Nat.zero_add]
          congr 1
          omega
    · have hpos : exponent.toNat ≠ 0 := fun h => hmin (BitVec.eq_of_toNat_eq h)
      rw [ofFields, if_neg hmax, if_neg hmin]
      refine ⟨?_, ?_⟩
      · rw [magnitude] at h
        simp only [Canonical]
        omega
      · rw [place, magnitude]
        congr 1
        omega

theorem sign_packComponents (s : Sign) (exponent : BitVec 11) (mantissa : BitVec 52) :
    Sign.ofBitVec (unpackSign (packComponents .binary64 s exponent mantissa)) = s := by
  have h : unpackSign (packComponents .binary64 s exponent mantissa) = s.toBitVec := by
    apply BitVec.eq_of_getLsbD_eq
    intro i hi
    obtain rfl : i = 0 := by omega
    rw [unpackSign, BitVec.getLsbD_cast, BitVec.getLsbD_extractLsb]
    change (s.toBitVec ++ exponent ++ mantissa).getLsbD 63 = s.toBitVec.getLsbD 0
    simp only [BitVec.getLsbD_append]
    rfl
  rw [h]
  cases s <;> rfl

def sign (x : Float) : Sign := if signBit x then .negative else .positive

def exponentField (x : Float) : BitVec 11 := @unpackExponent .binary64 x.toBits.toBitVec

def mantissaField (x : Float) : BitVec 52 := @unpackMantissa .binary64 x.toBits.toBitVec

theorem unpack_fields (x : Float) :
    x.toModel.unpack = ofFields (sign x) (exponentField x) (mantissaField x) := by
  refine (unpack_eq_ofFields _).trans ?_
  rw [ofBitVec_unpackSign, sign, signBit_eq]
  simp only [decide_eq_true_eq]
  rfl

theorem magnitude_fields (x : Float) :
    magnitude (exponentField x) (mantissaField x) = magnitudeBits x :=
  (toNat_magnitude _).trans (magnitudeBits_eq x).symm

theorem Canonical.isNaN {u : UnpackedFloat} (h : Canonical u) : u.isNaN = false := by
  cases u with
  | notANumber => exact h.elim
  | _ => rfl

theorem isNaN_iff (x : Float) : x.isNaN = true ↔ infinityBits < magnitudeBits x := by
  rw [show x.isNaN = x.toModel.unpack.isNaN from rfl, unpack_fields, ← magnitude_fields]
  constructor
  · intro h
    by_contra hle
    rw [(ofFields_place (sign x) (not_lt.1 hle)).1.isNaN] at h
    cases h
  · intro h
    rw [ofFields_nan _ h]
    rfl

theorem magnitudeBits_le {x : Float} (h : x.isNaN = false) : magnitudeBits x ≤ infinityBits := by
  rw [← Bool.not_eq_true, isNaN_iff, not_lt] at h
  exact h

/-- Place of a double that is a number among the others, by its bits; the zeros share one. -/
def position (x : Float) : Int := if signBit x then -(magnitudeBits x : Int) else magnitudeBits x

theorem place_unpack {x : Float} (h : x.isNaN = false) :
    Canonical x.toModel.unpack ∧ place x.toModel.unpack = position x := by
  have hp := ofFields_place (sign x) ((magnitude_fields x).trans_le (magnitudeBits_le h))
  rw [magnitude_fields] at hp
  rw [unpack_fields, position]
  refine ⟨hp.1, hp.2.trans ?_⟩
  rw [sign]
  generalize magnitudeBits x = n
  cases signBit x <;> rfl

theorem compare_position {x y : Float} (hx : x.isNaN = false) (hy : y.isNaN = false) :
    x.toModel.compare y.toModel = some (compare (position x) (position y)) := by
  obtain ⟨hc, hp⟩ := place_unpack hx
  obtain ⟨hc', hp'⟩ := place_unpack hy
  rw [Float.Model.compare, compare_place hc hc', hp, hp']

theorem compare_of_isNaN {x y : Float} (h : x.isNaN = true ∨ y.isNaN = true) :
    x.toModel.compare y.toModel = none := by
  have hn {u v : UnpackedFloat} (h : u.isNaN = true ∨ v.isNaN = true) : u.compare v = none := by
    rcases h with h | h
    · cases u with
      | notANumber => rfl
      | _ => cases h
    · cases v with
      | notANumber => cases u <;> rfl
      | _ => cases h
  exact hn h

/-- Doubles compare as their places, and not at all where one of them is no number. -/
theorem compare_eq (x y : Float) :
    x.toModel.compare y.toModel =
      if x.isNaN ∨ y.isNaN then none else some (compare (position x) (position y)) := by
  split
  next h => exact compare_of_isNaN h
  next h =>
    rw [not_or, Bool.not_eq_true, Bool.not_eq_true] at h
    exact compare_position h.1 h.2

theorem lt_iff {x y : Float} :
    x < y ↔ x.isNaN = false ∧ y.isNaN = false ∧ position x < position y := by
  change (decide ((x.toModel.compare y.toModel == some Ordering.lt) = true)) = true ↔ _
  rw [compare_eq]
  cases x.isNaN <;> cases y.isNaN <;> simp [compare_lt_iff_lt]

theorem le_iff {x y : Float} :
    x ≤ y ↔ x.isNaN = false ∧ y.isNaN = false ∧ position x ≤ position y := by
  change (decide ((x.toModel.compare y.toModel).any (·.isLE) = true)) = true ↔ _
  rw [compare_eq]
  cases x.isNaN <;> cases y.isNaN <;> simp [Int.isLE_compare]

theorem beq_iff {x y : Float} :
    (x == y) = true ↔ x.isNaN = false ∧ y.isNaN = false ∧ position x = position y := by
  change (x.toModel.compare y.toModel == some Ordering.eq) = true ↔ _
  rw [compare_eq]
  cases x.isNaN <;> cases y.isNaN <;> simp

theorem sign_pack_abs (u : UnpackedFloat) :
    Sign.ofBitVec (unpackSign (UnpackedFloat.pack .binary64 u.abs)) = .positive := by
  cases u with
  | finite s m e h =>
    rw [UnpackedFloat.abs, UnpackedFloat.pack]
    dsimp only
    split
    · exact sign_packComponents ..
    · split <;> exact sign_packComponents ..
  | _ => exact sign_packComponents ..

theorem signBit_abs (x : Float) : signBit x.abs = false := by
  have h := sign_pack_abs x.toModel.unpack
  rw [ofBitVec_unpackSign] at h
  rw [signBit_eq, decide_eq_false_iff_not]
  intro hn
  cases (if_pos hn).symm.trans h

/-- On magnitudes the total order of doubles is their order. -/
theorem rank_abs (x : Float) : rank x.abs = position x.abs := by
  rw [rank, position, signBit_abs]
  rfl

theorem le_trans {x y z : Float} (h : x ≤ y) (h' : y ≤ z) : x ≤ z := by
  rw [le_iff] at *
  exact ⟨h.1, h'.2.1, h.2.2.trans h'.2.2⟩

theorem le_of_lt {x y : Float} (h : x < y) : x ≤ y := by
  rw [lt_iff] at h
  rw [le_iff]
  exact ⟨h.1, h.2.1, h.2.2.le⟩

/-- Either of two doubles that are numbers is at most the other. -/
theorem not_lt_iff {x y : Float} :
    ¬ x < y ↔ x.isNaN = true ∨ y.isNaN = true ∨ y ≤ x := by
  rw [lt_iff, le_iff]
  cases x.isNaN <;> cases y.isNaN <;> simp

theorem le_of_not_lt {x y : Float} (hx : x.isNaN = false) (hy : y.isNaN = false) (h : ¬ x < y) :
    y ≤ x := by
  rw [lt_iff] at h
  rw [le_iff]
  exact ⟨hy, hx, not_lt.1 fun hlt => h ⟨hx, hy, hlt⟩⟩

theorem lt_of_not_le {x y : Float} (hx : x.isNaN = false) (hy : y.isNaN = false) (h : ¬ x ≤ y) :
    y < x := by
  rw [le_iff] at h
  rw [lt_iff]
  exact ⟨hy, hx, not_le.1 fun hle => h ⟨hx, hy, hle⟩⟩

end FleetHealth.Binary64
