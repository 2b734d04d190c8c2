import ArchiveRemap.Json.Numeral
import ArchiveRemap.Proofs.Number.Rounding

/-!
The decimal with which a number is written. It has at most seventeen digits and is no greater
than the decimal of the greatest number; that one is looked at by itself, since greater ones
that still round to it can no longer be read.
-/

namespace ArchiveRemap

namespace Decimal

/-- The decimal of the greatest number. -/
def greatest : Decimal := ⟨17976931348623157, 292⟩

/-- A decimal of few digits that is no greater than the greatest. Zero has no places. -/
structure Small (decimal : Decimal) : Prop where
  digits : decimal.digits ≤ 10 ^ 17
  value : decimal.digits * 10 ^ decimal.exponent.toNat ≤
    greatest.digits * 10 ^ greatest.exponent.toNat * 10 ^ (-decimal.exponent).toNat
  zero : decimal.digits = 0 → decimal.exponent = 0

theorem small_zero : Small ⟨0, 0⟩ where
  digits := Nat.zero_le _
  value := by
    rw [Nat.zero_mul]
    exact Nat.zero_le _
  zero _ := rfl

theorem small_greatest : greatest.Small where
  digits := by decide
  value := Nat.le_mul_of_pos_right _ (Nat.pow_pos (by decide))
  zero none := by cases none

/-- A small decimal other than zero has no place beyond the range. -/
theorem Small.exponent_le {decimal : Decimal} (small : decimal.Small)
    (nonzero : decimal.digits ≠ 0) : decimal.exponent ≤ 308 := by
  refine Int.not_lt.mp fun above => ?_
  have flat : (-decimal.exponent).toNat = 0 := by omega
  have value := small.value
  rw [flat, Nat.pow_zero, Nat.mul_one] at value
  have least : 10 ^ 309 ≤ decimal.digits * 10 ^ decimal.exponent.toNat :=
    Nat.le_trans (Nat.pow_le_pow_right (by decide) (by omega))
      (Nat.le_mul_of_pos_left _ (Nat.pos_of_ne_zero nonzero))
  have room : greatest.digits * 10 ^ greatest.exponent.toNat < 10 ^ 309 := by decide +kernel
  exact Nat.lt_irrefl _ (Nat.lt_of_lt_of_le room (Nat.le_trans least value))

/-- A zero at the end may be moved into the exponent. -/
theorem small_of_mul_ten {digits : Nat} {place : Int} (nonzero : digits ≠ 0)
    (small : Small ⟨10 * digits, place⟩) : Small ⟨digits, place + 1⟩ := by
  obtain ⟨few, below, -⟩ := small
  refine ⟨?_, ?_, fun none => absurd none nonzero⟩
  · dsimp only at few ⊢
    omega
  · dsimp only at below ⊢
    generalize greatest.digits * 10 ^ greatest.exponent.toNat = bound at below ⊢
    rcases Int.lt_or_le place 0 with down | up
    · have flat : place.toNat = 0 := by omega
      have still : (place + 1).toNat = 0 := by omega
      have shift : (-place).toNat = (-(place + 1)).toNat + 1 := by omega
      rw [flat, shift, Nat.pow_succ, Nat.pow_zero, Nat.mul_one, ← Nat.mul_assoc,
        Nat.mul_comm 10] at below
      rw [still, Nat.pow_zero, Nat.mul_one]
      exact Nat.le_of_mul_le_mul_right below (by decide)
    · have flat : (-place).toNat = 0 := by omega
      have still : (-(place + 1)).toNat = 0 := by omega
      have shift : (place + 1).toNat = place.toNat + 1 := by omega
      rw [flat, Nat.mul_comm 10, Nat.mul_assoc, Nat.mul_comm 10, ← Nat.pow_succ] at below
      rw [still, shift]
      exact below

end Decimal

namespace Double

theorem small_dropZeros (count : Nat) {decimal : Decimal} (small : decimal.Small) :
    (dropZeros count decimal).Small := by
  induction count generalizing decimal with
  | zero => exact small
  | succ count ih =>
      obtain ⟨digits, place⟩ := decimal
      rw [dropZeros]
      split
      · rename_i ends
        simp only [Bool.and_eq_true, decide_eq_true_eq, bne_iff_ne] at ends
        have whole : digits = 10 * (digits / 10) := by omega
        have nonzero : digits / 10 ≠ 0 := by omega
        rw [whole] at small
        exact ih (Decimal.small_of_mul_ten nonzero small)
      · exact small

/-- The greatest number. -/
def IsGreatest (x : Double) : Prop := x.mantissa = 2 ^ 53 - 1 ∧ x.exponent = 971

/-- A number ends half a place above its mantissa. Below the greatest one there is a smaller
mantissa, or a smaller place. -/
theorem upper_le {x : Double} (finite : x.Finite) (smaller : ¬ x.IsGreatest) (power : Nat) :
    (4 * x.mantissa + 2) * (power * 2 ^ x.exponent.toNat) ≤
      4 * ((2 ^ 54 - 3) * halfPlace * power) := by
  have mantissa := finite.mantissa
  have exponent := finite.exponent
  by_cases last : x.mantissa = 2 ^ 53 - 1
  · have scale : 2 ^ x.exponent.toNat ≤ 2 ^ 0 * halfPlace := le_place (by
      have : x.exponent ≠ 971 := fun most => smaller ⟨last, most⟩
      omega)
    have upper := Nat.mul_le_mul_left power scale
    rw [Nat.mul_left_comm _ (2 ^ 0), Nat.mul_comm _ halfPlace] at upper
    rw [last, Nat.mul_assoc (2 ^ 54 - 3)]
    generalize power * 2 ^ x.exponent.toNat = unit at upper ⊢
    generalize halfPlace * power = half at upper ⊢
    omega
  · have scale : 2 ^ x.exponent.toNat ≤ 2 ^ 1 * halfPlace := le_place (by omega)
    have upper := Nat.mul_le_mul_left power scale
    have less : 4 * x.mantissa + 2 ≤ 2 ^ 55 - 6 := by omega
    refine Nat.le_trans (Nat.mul_le_mul_right _ less) ?_
    rw [Nat.mul_left_comm _ (2 ^ 1), Nat.mul_comm _ halfPlace] at upper
    rw [Nat.mul_assoc (2 ^ 54 - 3)]
    generalize power * 2 ^ x.exponent.toNat = unit at upper ⊢
    generalize halfPlace * power = half at upper ⊢
    omega

/-- What rounds to a number does not lie above its end, whether or not that still rounds to it. -/
theorem le_upper_of_roundsFrom {x : Double} {digits : Nat} {place : Int}
    (fits : x.roundsFrom digits place = true) :
    4 * (digits * 10 ^ place.toNat * 2 ^ (-x.exponent).toNat) ≤
      (4 * x.mantissa + 2) * (10 ^ (-place).toNat * 2 ^ x.exponent.toNat) := by
  unfold roundsFrom at fits
  dsimp only at fits
  generalize 2 ^ x.exponent.toNat = up at fits ⊢
  generalize 2 ^ (-x.exponent).toNat = down at fits ⊢
  by_cases even : x.mantissa % 2 = 0
  · simp only [even, if_true, Bool.and_eq_true, decide_eq_true_eq] at fits
    exact fits.2
  · simp only [even, if_false, Bool.and_eq_true, decide_eq_true_eq] at fits
    exact Nat.le_of_lt fits.2

/-- What rounds to a smaller number keeps half a place away from the greatest one. -/
theorem le_of_roundsFrom {x : Double} (finite : x.Finite) (smaller : ¬ x.IsGreatest)
    {digits : Nat} {place : Int} (fits : x.roundsFrom digits place = true) :
    digits * 10 ^ place.toNat ≤ (2 ^ 54 - 3) * halfPlace * 10 ^ (-place).toNat := by
  have lower : digits * 10 ^ place.toNat ≤
      digits * 10 ^ place.toNat * 2 ^ (-x.exponent).toNat :=
    Nat.le_mul_of_pos_right _ (Nat.two_pow_pos _)
  have inside := le_upper_of_roundsFrom fits
  have bounded := upper_le finite smaller (10 ^ (-place).toNat)
  omega

/-- Zero rounds to no other number. -/
theorem roundsFrom_zero {x : Double} (nonzero : x.mantissa ≠ 0) (place : Int) :
    x.roundsFrom 0 place = false := by
  have positive (below : Nat) (near : below ≤ 2) :
      0 < (4 * x.mantissa - below) * (10 ^ (-place).toNat * 2 ^ x.exponent.toNat) :=
    Nat.mul_pos (by omega) (Nat.mul_pos (Nat.pow_pos (by decide)) (Nat.two_pow_pos _))
  unfold roundsFrom
  dsimp only
  split
  · simp only [Nat.zero_mul, Nat.mul_zero, Bool.and_eq_false_iff, decide_eq_false_iff_not]
    exact .inl (Nat.not_le.mpr (positive _ (by split <;> decide)))
  · simp only [Nat.zero_mul, Nat.mul_zero, Bool.and_eq_false_iff, decide_eq_false_iff_not]
    exact .inl (Nat.not_lt_zero _)

theorem small_of_roundsFrom {x : Double} (finite : x.Finite) (smaller : ¬ x.IsGreatest)
    (nonzero : x.mantissa ≠ 0) {digits : Nat} {place : Int} (few : digits ≤ 10 ^ 17)
    (fits : x.roundsFrom digits place = true) : Decimal.Small ⟨digits, place⟩ := by
  have below : (2 ^ 54 - 3) * halfPlace ≤
      Decimal.greatest.digits * 10 ^ Decimal.greatest.exponent.toNat := by decide +kernel
  refine ⟨few, Nat.le_trans (le_of_roundsFrom finite smaller fits)
    (Nat.mul_le_mul_right _ below), ?_⟩
  rintro rfl
  rw [roundsFrom_zero nonzero] at fits
  cases fits

/-- What is left of the number before a place at most sixteen behind its first digit has at
most seventeen digits. -/
theorem quotient_lt (x : Double) {count : Nat} (few : count ≤ 16) :
    let place := x.leadingPlace - count
    x.numerator * 10 ^ (-place).toNat / (x.denominator * 10 ^ place.toNat) < 10 ^ 17 := by
  intro place
  have positive : 0 < x.denominator := Nat.two_pow_pos _
  have length : x.numerator * 10 ^ 400 / x.denominator <
      10 ^ digitCount (x.numerator * 10 ^ 400 / x.denominator) :=
    (Nat.length_toDigits_le_iff (by decide) Nat.length_toDigits_pos).mp (Nat.le_refl _)
  have shift : digitCount (x.numerator * 10 ^ 400 / x.denominator) + (-place).toNat =
      400 + (1 + count + place.toNat) := by
    simp only [place, leadingPlace]
    omega
  rw [Nat.div_lt_iff_lt_mul positive] at length
  rw [Nat.div_lt_iff_lt_mul (Nat.mul_pos positive (Nat.pow_pos (by decide)))]
  have split : 10 ^ digitCount (x.numerator * 10 ^ 400 / x.denominator) * 10 ^ (-place).toNat =
      10 ^ 400 * (10 ^ (1 + count) * 10 ^ place.toNat) := by
    rw [← Nat.pow_add, shift, Nat.pow_add, Nat.pow_add]
  have size : 10 ^ (1 + count) ≤ 10 ^ 17 := Nat.pow_le_pow_right (by decide) (by omega)
  generalize digitCount (x.numerator * 10 ^ 400 / x.denominator) = digits at length split
  generalize 10 ^ 400 = scale at length split
  refine @Nat.lt_of_mul_lt_mul_right scale _ _ ?_
  calc x.numerator * 10 ^ (-place).toNat * scale
      = x.numerator * scale * 10 ^ (-place).toNat := Nat.mul_right_comm ..
    _ < 10 ^ digits * x.denominator * 10 ^ (-place).toNat :=
      Nat.mul_lt_mul_of_pos_right length (Nat.pow_pos (by decide))
    _ = scale * (10 ^ (1 + count) * 10 ^ place.toNat) * x.denominator := by
      rw [Nat.mul_right_comm, split]
    _ ≤ scale * (10 ^ 17 * 10 ^ place.toNat) * x.denominator :=
      Nat.mul_le_mul_right _ (Nat.mul_le_mul_left _ (Nat.mul_le_mul_right _ size))
    _ = 10 ^ 17 * (x.denominator * 10 ^ place.toNat) * scale := by ac_rfl

theorem small_of_onGrid? {x : Double} (finite : x.Finite) (smaller : ¬ x.IsGreatest)
    (nonzero : x.mantissa ≠ 0) {count : Nat} (few : count ≤ 16) {decimal : Decimal}
    (found : x.onGrid? (x.leadingPlace - count) = some decimal) : decimal.Small := by
  have size := quotient_lt x few
  unfold onGrid? at found
  dsimp only at found size
  split at found
  · rename_i low
    cases found
    simp only [Bool.and_eq_true] at low
    exact small_of_roundsFrom finite smaller nonzero (Nat.le_of_lt size) low.1
  · split at found
    · rename_i high
      cases found
      exact small_of_roundsFrom finite smaller nonzero (by omega) high
    · cases found

theorem shortest_of_isGreatest {x : Double} (greatest : x.IsGreatest) :
    x.shortest = Decimal.greatest := by
  obtain ⟨negative, mantissa, exponent⟩ := x
  obtain ⟨rfl, rfl⟩ := greatest
  cases negative <;> decide +kernel

/-- The shortest decimal of a finite number is small. -/
theorem small_shortest {x : Double} (finite : x.Finite) (nonzero : x.mantissa ≠ 0) :
    x.shortest.Small := by
  by_cases greatest : x.IsGreatest
  · rw [shortest_of_isGreatest greatest]
    exact Decimal.small_greatest
  · unfold shortest
    refine small_dropZeros 18 ?_
    cases found : (List.map (fun count : Nat => x.leadingPlace - count) (List.range 17)).findSome?
        x.onGrid? with
    | none => exact Decimal.small_zero
    | some decimal =>
        obtain ⟨place, member, grid⟩ := List.exists_of_findSome?_eq_some found
        obtain ⟨count, within, rfl⟩ := List.mem_map.mp member
        exact small_of_onGrid? finite greatest nonzero
          (Nat.le_of_lt_succ (List.mem_range.mp within)) grid

end Double

end ArchiveRemap
