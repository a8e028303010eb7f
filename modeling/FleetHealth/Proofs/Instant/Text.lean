import FleetHealth.Instant.Text
import FleetHealth.Proofs.Decimal.Digits
import FleetHealth.Proofs.Instant.Calendar
import Mathlib.Data.List.TakeWhile

/-!
# Reading instants back

The text of an instant is read back as that instant: leap seconds, years of more than four digits,
years before the first, and every width of the fraction included.
-/
namespace FleetHealth.Instant

open FleetHealth.Decimal (digitValue? padded value IsNumeral)
open FleetHealth.Calendar (Date dateOfDay dayNumber)

variable {rest : List Char}

theorem skipBlanks_cons {c : Char} (h : isBlank c = false) : skipBlanks (c :: rest) = c :: rest := by
  simp [skipBlanks, h]

theorem isBlank_of_digitValue? {c : Char} (h : (digitValue? c).isSome = true) :
    isBlank c = false := by
  unfold digitValue? at h
  split at h
  next hc =>
    have h0 : 48 ≤ c.toNat := hc.1
    have h9 : c.toNat ≤ 57 := hc.2
    simp only [isBlank, Bool.or_eq_false_iff, Bool.and_eq_false_iff, decide_eq_false_iff_not,
      beq_eq_false_iff_ne]
    omega
  next => simp at h

/-- A numeral has a first digit, so that no blanks are passed over before it. -/
theorem skipBlanks_append {cs : List Char} (h : IsNumeral cs) (hne : cs ≠ []) :
    skipBlanks (cs ++ rest) = cs ++ rest := by
  cases cs with
  | nil => exact absurd rfl hne
  | cons c cs => exact skipBlanks_cons (isBlank_of_digitValue? (h c List.mem_cons_self))

theorem number?_padded {width n : Nat} (hwidth : 0 < width) (hn : n < 10 ^ width) :
    number? width (padded width n ++ rest) = some (n, rest) := by
  have hnumeral := Decimal.isNumeral_padded width n
  have hne := Decimal.padded_ne_nil width n
  have htake : (padded width n ++ rest).take width = padded width n :=
    List.take_left' (Decimal.length_padded hwidth hn)
  have hall : (padded width n).takeWhile (fun c => (digitValue? c).isSome) = padded width n :=
    List.takeWhile_eq_self_iff.2 hnumeral
  simp only [number?, skipBlanks_append hnumeral hne, htake, hall, List.isEmpty_eq_false_iff.2 hne,
    Decimal.value_padded, List.drop_left]
  rfl

theorem mark?_cons {c : Char} (h : isBlank c = false) : mark? c (c :: rest) = some rest := by
  simp [mark?, skipBlanks_cons h]

theorem signed_padded (f : Nat → Int) (n : Nat) (hrest : ∀ c ∈ rest.head?, digitValue? c = none) :
    year?.signed (padded 4 n ++ rest) f = some (f n, rest) := by
  have hne := Decimal.padded_ne_nil 4 n
  simp only [year?.signed, (Decimal.isNumeral_padded 4 n).takeWhile_append hrest,
    List.isEmpty_eq_false_iff.2 hne, Decimal.value_padded, List.drop_left]
  rfl

/-- A year that begins with a digit has no sign. -/
theorem year?_of_isNumeral {cs : List Char} (h : IsNumeral cs) (hne : cs ≠ []) :
    year? (cs ++ rest) = (number? 4 (cs ++ rest)).map fun (n, rest) => ((n : Int), rest) := by
  obtain ⟨c, cs, rfl⟩ := List.exists_cons_of_ne_nil hne
  have hc := h c List.mem_cons_self
  rw [year?, skipBlanks_append h hne, List.cons_append]
  split
  next heq =>
    obtain ⟨rfl, _⟩ := List.cons.inj heq
    exact absurd hc (by decide)
  next heq =>
    obtain ⟨rfl, _⟩ := List.cons.inj heq
    exact absurd hc (by decide)
  next => rfl

theorem year?_yearText (year : Int) (hrest : ∀ c ∈ rest.head?, digitValue? c = none) :
    year? (yearText year ++ rest) = some (year, rest) := by
  unfold yearText
  split
  next hfour =>
    rw [year?_of_isNumeral (Decimal.isNumeral_padded _ _) (Decimal.padded_ne_nil _ _),
      number?_padded (by decide) (by omega), Option.map_some]
    simp only [Int.toNat_of_nonneg hfour.1]
  next hfour =>
    split
    next hneg =>
      have habs : -(year.natAbs : Int) = year := by omega
      rw [List.cons_append, year?, skipBlanks_cons (by decide)]
      exact (signed_padded _ _ hrest).trans (by rw [habs])
    next hneg =>
      have habs : (year.natAbs : Int) = year := by omega
      rw [List.cons_append, year?, skipBlanks_cons (by decide)]
      exact (signed_padded _ _ hrest).trans (by rw [habs])

theorem fraction?_point {width n : Nat} (hwidth : 0 < width ∧ width ≤ 9) (hn : n < 10 ^ width)
    (hrest : ∀ c ∈ rest.head?, digitValue? c = none) :
    fraction? ('.' :: (padded width n ++ rest)) = some (n * 10 ^ (9 - width), rest) := by
  have hlength := Decimal.length_padded hwidth.1 hn
  have hne := Decimal.padded_ne_nil width n
  have htake : (padded width n).take 9 = padded width n :=
    List.take_of_length_le (by omega)
  simp only [fraction?, (Decimal.isNumeral_padded width n).takeWhile_append hrest, htake,
    List.isEmpty_eq_false_iff.2 hne, Decimal.value_padded, List.drop_left]
  rw [hlength]
  rfl

theorem fraction?_fractionText {nano : Nat} (hn : nano < 1000000000) :
    fraction? (fractionText nano ++ ['Z']) = some (nano, ['Z']) := by
  have hrest : ∀ c ∈ ['Z'].head?, digitValue? c = none := by rintro _ ⟨⟩; rfl
  unfold fractionText
  split
  next hzero => rw [hzero]; rfl
  next =>
    split
    next hmillis =>
      rw [List.cons_append, fraction?_point (by decide) (by omega) hrest,
        show nano / 1000000 * 10 ^ (9 - 3) = nano by omega]
    next =>
      split
      next hmicros =>
        rw [List.cons_append, fraction?_point (by decide) (by omega) hrest,
          show nano / 1000 * 10 ^ (9 - 6) = nano by omega]
      next =>
        rw [List.cons_append, fraction?_point (by decide) hn hrest, Nat.sub_self, Nat.pow_zero,
          Nat.mul_one]

theorem secondOfDay_bounds (t : Instant) : 0 ≤ t.secondOfDay ∧ t.secondOfDay < 86400 :=
  ⟨Int.emod_nonneg _ (by decide), Int.emod_lt_of_pos _ (by decide)⟩

theorem year_bounds (t : Instant) : -262143 ≤ (dateOfDay (t.second / 86400)).year ∧
    (dateOfDay (t.second / 86400)).year ≤ 262142 := by
  have hfirst : -8334601228800 ≤ t.second := t.valid.1
  have hlast : t.second ≤ 8210266876799 := t.valid.2.1
  have hlow := Calendar.le_year_dateOfDay_iff (-262143) (t.second / 86400)
  have hhigh := Calendar.le_year_dateOfDay_iff 262143 (t.second / 86400)
  rw [show dayNumber ⟨-262143, 1, 1⟩ = -96465292 by decide] at hlow
  rw [show dayNumber ⟨262143, 1, 1⟩ = 95026237 by decide] at hhigh
  omega

/-- Second of the minute and nanosecond, as they are written. -/
def writtenSecond (t : Instant) : Nat := t.secondOfDay.toNat % 60 + (if t.inLeap then 1 else 0)

def writtenNano (t : Instant) : Nat := if t.inLeap then t.nano - 1000000000 else t.nano

theorem written_of_inLeap {t : Instant} (h : t.inLeap = true) : t.secondOfDay.toNat % 60 = 59 ∧
    t.writtenSecond = 60 ∧ t.nano = t.writtenNano + 1000000000 ∧ t.writtenNano < 1000000000 := by
  have hvalid := t.valid.2.2
  have hday : t.secondOfDay = t.second % 86400 := rfl
  have hnano : 1000000000 ≤ t.nano := of_decide_eq_true h
  simp only [writtenSecond, writtenNano, h, if_true]
  omega

theorem written_of_not_inLeap {t : Instant} (h : ¬ t.inLeap = true) :
    t.writtenSecond = t.secondOfDay.toNat % 60 ∧ t.writtenNano = t.nano ∧ t.nano < 1000000000 := by
  refine ⟨?_, if_neg h, Nat.lt_of_not_le fun hnano => h (decide_eq_true hnano)⟩
  rw [writtenSecond, if_neg h, Nat.add_zero]

theorem written_bounds (t : Instant) : t.writtenSecond ≤ 60 ∧ t.writtenNano < 1000000000 := by
  by_cases h : t.inLeap = true
  · obtain ⟨_, hsecond, _, hnano⟩ := written_of_inLeap h
    omega
  · obtain ⟨hsecond, hnano, hlt⟩ := written_of_not_inLeap h
    omega

/-- The parts of an instant make it again. -/
theorem ofParts?_self (t : Instant) :
    ofParts? (dateOfDay (t.second / 86400)) (t.secondOfDay.toNat / 3600)
      (t.secondOfDay.toNat / 60 % 60) t.writtenSecond t.writtenNano 0 = some t := by
  obtain ⟨hlow, hhigh⟩ := t.year_bounds
  have hofDay := t.secondOfDay_bounds
  have hday : t.secondOfDay = t.second % 86400 := rfl
  rw [ofParts?, if_pos ⟨Calendar.isValid_dateOfDay _, hlow, hhigh, by omega, by omega,
    t.written_bounds.1, by decide, by decide⟩, Calendar.dayNumber_dateOfDay]
  have hsecond : t.second / 86400 * 86400 + ((3600 * (t.secondOfDay.toNat / 3600) +
      60 * (t.secondOfDay.toNat / 60 % 60) +
      (if t.writtenSecond = 60 then 59 else t.writtenSecond) : Nat) : Int) - 0 = t.second := by
    by_cases h : t.inLeap = true
    · obtain ⟨hlast, hsecond, _⟩ := written_of_inLeap h
      rw [if_pos hsecond]
      omega
    · obtain ⟨hsecond, _⟩ := written_of_not_inLeap h
      rw [if_neg (by omega)]
      omega
  have hnano : (if t.writtenSecond = 60 then t.writtenNano + 1000000000 else t.writtenNano) =
      t.nano := by
    by_cases h : t.inLeap = true
    · obtain ⟨_, hsecond, hnano, _⟩ := written_of_inLeap h
      rw [if_pos hsecond, hnano]
    · obtain ⟨hsecond, hnano, _⟩ := written_of_not_inLeap h
      rw [if_neg (by omega), hnano]
  simp only [hsecond, hnano, ofSecond?, t.valid, dif_pos]

theorem text_toList (t : Instant) : t.text.toList =
    yearText (dateOfDay (t.second / 86400)).year ++
      '-' :: (padded 2 (dateOfDay (t.second / 86400)).month ++
      '-' :: (padded 2 (dateOfDay (t.second / 86400)).day ++
      'T' :: (padded 2 (t.secondOfDay.toNat / 3600) ++
      ':' :: (padded 2 (t.secondOfDay.toNat / 60 % 60) ++
      ':' :: (padded 2 t.writtenSecond ++ (fractionText t.writtenNano ++ ['Z'])))))) := by
  simp only [text, String.toList_ofList, dateText, List.append_assoc, List.cons_append]
  rfl

theorem ofText?_text (t : Instant) : ofText? t.text = some t := by
  have hofDay := t.secondOfDay_bounds
  obtain ⟨hsecond, hnano⟩ := t.written_bounds
  have hvalid := Calendar.isValid_dateOfDay (t.second / 86400)
  simp only [Date.isValid, Bool.and_eq_true, decide_eq_true_eq] at hvalid
  have hdays := Calendar.daysInMonth_le (dateOfDay (t.second / 86400)).year
    (dateOfDay (t.second / 86400)).month
  have htwo {n : Nat} (hn : n < 100) (rest : List Char) :
      number? 2 (padded 2 n ++ rest) = some (n, rest) := number?_padded (by decide) hn
  have hmonth := htwo (show (dateOfDay (t.second / 86400)).month < 100 by omega)
  have hday := htwo (show (dateOfDay (t.second / 86400)).day < 100 by omega)
  have hhour := htwo (show t.secondOfDay.toNat / 3600 < 100 by omega)
  have hminute := htwo (show t.secondOfDay.toNat / 60 % 60 < 100 by omega)
  have hsecond' := htwo (show t.writtenSecond < 100 by omega)
  have hdash (rest : List Char) : mark? '-' ('-' :: rest) = some rest := mark?_cons (by decide)
  have hcolon (rest : List Char) : mark? ':' (':' :: rest) = some rest := mark?_cons (by decide)
  have hoffset : offset? (skipBlanks ['Z']) = some (0, []) := by decide
  have hempty : (skipBlanks []).isEmpty = true := rfl
  rw [ofText?, t.text_toList, year?_yearText _ (by rintro _ ⟨⟩; rfl)]
  -- the parts are read one after the other, in the order in which they stand
  dsimp only [bind, Option.bind]
  rw [hdash]
  dsimp only
  rw [hmonth]
  dsimp only
  rw [hdash]
  dsimp only
  rw [hday]
  dsimp only
  rw [if_pos (.inl rfl), hhour]
  dsimp only
  rw [hcolon]
  dsimp only
  rw [hminute]
  dsimp only
  rw [hcolon]
  dsimp only
  rw [hsecond']
  dsimp only
  rw [fraction?_fractionText hnano]
  dsimp only
  rw [hoffset]
  dsimp only
  rw [if_pos hempty]
  exact t.ofParts?_self

end FleetHealth.Instant
