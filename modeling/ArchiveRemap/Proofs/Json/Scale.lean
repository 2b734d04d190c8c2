import ArchiveRemap.Proofs.Number.Decimal

/-!
Making a number from a significand and a power of ten. Digits that fit into 64 bits are
gathered in full. Both factors are rounded before they are multiplied, which exceeds the
product by a little; a decimal as small as the written ones stays in the range all the same.
-/

namespace ArchiveRemap.Json.Numeral

open Double (limit)

/-! Digits. -/

theorem le_ofDigitChars (digits : List Char) (start : Nat) :
    start ≤ Nat.ofDigitChars 10 digits start := by
  induction digits generalizing start with
  | nil => exact Nat.le_of_eq Nat.ofDigitChars_nil.symm
  | cons digit rest ih =>
      rw [Nat.ofDigitChars_cons]
      exact Nat.le_trans (by omega) (ih _)

/-- One more digit, as both sides count it. -/
theorem next_eq (start : Nat) (digit : Char) :
    start * 10 + digitValue digit = 10 * start + (digit.toNat - '0'.toNat) := by
  rw [Nat.mul_comm]
  rfl

theorem gather_eq (digits : List Char) {start : Nat}
    (few : Nat.ofDigitChars 10 digits start < 2 ^ 64) :
    gather start digits = (Nat.ofDigitChars 10 digits start, []) := by
  induction digits generalizing start with
  | nil => rw [gather, Nat.ofDigitChars_nil]
  | cons digit rest ih =>
      rw [Nat.ofDigitChars_cons, ← next_eq] at few ⊢
      rw [gather, if_pos (Nat.lt_of_le_of_lt (le_ofDigitChars rest _) few), ih few]

/-- Reading stays where it failed. -/
theorem foldl_bind_none {α β : Type} (step : β → α → Option β) (items : List α) :
    items.foldl (fun done item => done.bind fun value => step value item) none = none := by
  induction items with
  | nil => rfl
  | cons item rest ih => exact ih

/-- An exponent is read in full or, when it does not fit, not at all. -/
theorem readExponent?_eq (digits : List Char) :
    readExponent? digits =
      if Nat.ofDigitChars 10 digits 0 < 2 ^ 31 then some (Nat.ofDigitChars 10 digits 0)
      else none := by
  unfold readExponent?
  generalize zero : 0 = start
  have small : start < 2 ^ 31 := by omega
  clear zero
  induction digits generalizing start with
  | nil => rw [List.foldl_nil, Nat.ofDigitChars_nil, if_pos small]
  | cons digit rest ih =>
      rw [List.foldl_cons, Nat.ofDigitChars_cons, ← next_eq]
      dsimp only [bind, Option.bind]
      by_cases fits : start * 10 + digitValue digit < 2 ^ 31
      · rw [if_pos fits]
        exact ih _ fits
      · have past : ¬ Nat.ofDigitChars 10 rest (start * 10 + digitValue digit) < 2 ^ 31 :=
          fun less => fits (Nat.lt_of_le_of_lt (le_ofDigitChars rest _) less)
        rw [if_neg fits, if_neg past]
        exact foldl_bind_none _ rest

/-! Powers of ten. -/

/-- A rounded whole number exceeds the number by at most one part in 2 ^ 53. -/
theorem numerator_le_of_whole {negative : Bool} {n : Nat} {x : Double}
    (found : Double.ofRatio? negative n 1 = some x) :
    x.numerator * 2 ^ 53 ≤ n * (2 ^ 53 + 1) * x.denominator := by
  by_cases none : n = 0
  · rw [Double.ofRatio?, if_pos none] at found
    cases found
    simp [Double.zero, Double.numerator]
  · have near := Double.le_of_ofRatio? (by decide) (Nat.one_le_iff_ne_zero.mpr none) found
    rwa [Nat.mul_one] at near

theorem numerator_powerOfTen_le (places : Nat) :
    (powerOfTen places).numerator * 2 ^ 53 ≤
      10 ^ places * (2 ^ 53 + 1) * (powerOfTen places).denominator := by
  unfold powerOfTen
  cases found : Double.ofRatio? false (10 ^ places) 1 with
  | none => simp [Double.zero, Double.numerator]
  | some x => exact numerator_le_of_whole found

theorem isSome_ofRatio?_whole (negative : Bool) {n : Nat} (few : n ≤ 2 ^ 64) :
    (Double.ofRatio? negative n 1).isSome := by
  have low : 2 ^ 64 < limit := by decide +kernel
  exact Double.isSome_ofRatio? negative (by omega)

theorem isSome_scale?_of_neg {significand : Nat} {exponent : Int} (few : significand ≤ 2 ^ 64)
    (down : exponent < 0) : (scale? significand exponent).isSome := by
  obtain ⟨x, found⟩ := Option.isSome_iff_exists.mp (isSome_ofRatio?_whole false few)
  simp [scale?, found, down]

theorem isSome_scale?_zero (exponent : Int) : (scale? 0 exponent).isSome := by
  have zero : (Double.zero false).numerator = 0 := Nat.zero_mul _
  have whole : Double.ofRatio? false 0 1 = some (Double.zero false) := by
    rw [Double.ofRatio?, if_pos rfl]
  simp only [scale?, whole, Option.bind_eq_bind, Option.bind_some]
  split
  · rfl
  · split
    · rw [Double.mul?, zero, Nat.zero_mul, Double.ofRatio?, if_pos rfl]
      rfl
    · rfl

/-- Products this small survive both roundings. -/
theorem isSome_scale?_of_le {significand : Nat} {exponent : Int} (few : significand ≤ 2 ^ 64)
    (up : 0 ≤ exponent) (last : exponent ≤ 308)
    (safe : significand * 10 ^ exponent.toNat ≤ 17976931348623154 * 10 ^ 292) :
    (scale? significand exponent).isSome := by
  obtain ⟨x, found⟩ := Option.isSome_iff_exists.mp (isSome_ofRatio?_whole false few)
  simp only [scale?, found, Option.bind_eq_bind, Option.bind_some, if_neg (Int.not_lt.mpr up),
    if_pos last]
  refine Double.isSome_ofRatio? _ ?_
  have product := Nat.mul_le_mul (numerator_le_of_whole found)
    (numerator_powerOfTen_le exponent.toNat)
  have room : 17976931348623154 * 10 ^ 292 * ((2 ^ 53 + 1) * (2 ^ 53 + 1)) <
      limit * (2 ^ 53 * 2 ^ 53) := by decide +kernel
  have bound : significand * 10 ^ exponent.toNat * ((2 ^ 53 + 1) * (2 ^ 53 + 1)) <
      limit * (2 ^ 53 * 2 ^ 53) := Nat.lt_of_le_of_lt (Nat.mul_le_mul_right _ safe) room
  have positive : 0 < x.denominator * (powerOfTen exponent.toNat).denominator :=
    Nat.mul_pos (Nat.two_pow_pos _) (Nat.two_pow_pos _)
  generalize powerOfTen exponent.toNat = y at product positive ⊢
  refine @Nat.lt_of_mul_lt_mul_right (2 ^ 53 * 2 ^ 53) _ _ ?_
  calc x.numerator * y.numerator * (2 ^ 53 * 2 ^ 53)
      = x.numerator * 2 ^ 53 * (y.numerator * 2 ^ 53) := Nat.mul_mul_mul_comm ..
    _ ≤ significand * (2 ^ 53 + 1) * x.denominator *
        (10 ^ exponent.toNat * (2 ^ 53 + 1) * y.denominator) := product
    _ = significand * 10 ^ exponent.toNat * ((2 ^ 53 + 1) * (2 ^ 53 + 1)) *
        (x.denominator * y.denominator) := by ac_rfl
    _ < limit * (2 ^ 53 * 2 ^ 53) * (x.denominator * y.denominator) :=
      Nat.mul_lt_mul_of_pos_right bound positive
    _ = limit * (x.denominator * y.denominator) * (2 ^ 53 * 2 ^ 53) := Nat.mul_right_comm ..

theorem isSome_scale?_last : ∀ rest < 3, (scale? (17976931348623155 + rest) 292).isSome := by
  decide +kernel

/-- The last three digits are left to the place where the greatest number ends. -/
theorem isSome_scale?_near {significand : Nat}
    (most : significand ≤ 17976931348623157) : (scale? significand 292).isSome := by
  rcases Nat.lt_or_ge significand 17976931348623155 with safe | near
  · exact isSome_scale?_of_le (by omega) (by decide) (by decide)
      (Nat.mul_le_mul_right _ (Nat.le_of_lt_succ safe))
  · have last := isSome_scale?_last (significand - 17976931348623155) (by omega)
    rwa [Nat.add_sub_cancel' near] at last

/-- Beyond that place the digits end with a zero there. -/
theorem isSome_scale?_beyond {significand rest : Nat} (nonzero : significand ≠ 0)
    (few : significand ≤ 2 ^ 64)
    (most : 10 * (significand * 10 ^ rest) ≤ 17976931348623157) {exponent : Int}
    (place : exponent = 292 + rest + 1) : (scale? significand exponent).isSome := by
  have short : rest < 16 := by
    have lead : 10 ^ rest ≤ significand * 10 ^ rest :=
      Nat.le_mul_of_pos_left _ (Nat.pos_of_ne_zero nonzero)
    have size : 10 ^ rest < 10 ^ 16 := by omega
    exact (Nat.pow_lt_pow_iff_right (by decide)).mp size
  have split : significand * 10 ^ exponent.toNat = 10 * (significand * 10 ^ rest) * 10 ^ 292 := by
    have places : exponent.toNat = 292 + rest + 1 := by omega
    rw [places, Nat.pow_succ, Nat.pow_add]
    ac_rfl
  refine isSome_scale?_of_le few (by omega) (by omega) ?_
  rw [split]
  exact Nat.mul_le_mul_right _ (by omega)

/-- A small decimal can be read. -/
theorem isSome_scale? {decimal : Decimal} (small : decimal.Small) :
    (scale? decimal.digits decimal.exponent).isSome := by
  obtain ⟨digits, exponent⟩ := decimal
  obtain ⟨few, below, -⟩ := small
  dsimp only at few below ⊢
  rcases Int.lt_or_le exponent 0 with down | up
  · exact isSome_scale?_of_neg (by omega) down
  · have flat : (-exponent).toNat = 0 := by omega
    rw [flat, Nat.pow_zero, Nat.mul_one] at below
    by_cases none : digits = 0
    · rw [none]
      exact isSome_scale?_zero exponent
    · rcases Nat.lt_trichotomy exponent.toNat 292 with less | same | more
      · refine isSome_scale?_of_le (by omega) up (by omega) ?_
        have power : 10 ^ exponent.toNat ≤ 10 ^ 291 :=
          Nat.pow_le_pow_right (by decide) (by omega)
        have room : 10 ^ 17 * 10 ^ 291 ≤ 17976931348623154 * 10 ^ 292 := by decide +kernel
        exact Nat.le_trans (Nat.mul_le_mul few power) room
      · have place : exponent = 292 := by omega
        rw [same] at below
        rw [place]
        exact isSome_scale?_near (Nat.le_of_mul_le_mul_right below (Nat.pow_pos (by decide)))
      · obtain ⟨rest, gap⟩ := Nat.exists_eq_add_of_lt more
        have split : digits * 10 ^ exponent.toNat = 10 * (digits * 10 ^ rest) * 10 ^ 292 := by
          rw [gap, Nat.pow_succ, Nat.pow_add]
          ac_rfl
        rw [split] at below
        exact isSome_scale?_beyond none (by omega)
          (Nat.le_of_mul_le_mul_right below (Nat.pow_pos (by decide))) (by omega)

/-! Tokens. -/

theorem isSome_real?_positional {significand : Nat} {places : Int} (few : significand ≤ 2 ^ 64)
    (down : places < 0) : (real? significand places none).isSome :=
  isSome_scale?_of_neg few down

/-- Places and a written exponent make up the exponent of a small decimal. -/
theorem isSome_real?_scientific {decimal : Decimal} (small : decimal.Small) {places : Int}
    (near : -(2 ^ 30) ≤ places) {down : Bool} {digits : List Char}
    (sum : decimal.exponent = if down then places - Nat.ofDigitChars 10 digits 0
      else places + Nat.ofDigitChars 10 digits 0) :
    (real? decimal.digits places (some (down, digits))).isSome := by
  rw [real?, readExponent?_eq]
  by_cases fits : Nat.ofDigitChars 10 digits 0 < 2 ^ 31
  · simp only [fits, if_true]
    rw [← sum]
    by_cases none : decimal.digits = 0
    · rw [none]
      exact isSome_scale?_zero _
    · have last := small.exponent_le none
      rcases Int.lt_or_le decimal.exponent 0 with below | above
      · exact isSome_scale?_of_neg (Nat.le_trans small.digits (by decide)) (by omega)
      · have unclamped : max (-(2 ^ 31)) (min decimal.exponent (2 ^ 31 - 1)) =
            decimal.exponent := by omega
        rw [unclamped]
        exact isSome_scale? small
  · simp only [fits, if_false]
    split
    · rfl
    · rename_i far
      simp only [Bool.or_eq_true, decide_eq_true_eq, not_or, Bool.not_eq_true] at far
      have last := small.exponent_le far.1
      rw [sum, far.2] at last
      simp only [Bool.false_eq_true, if_false] at last
      omega

/-- A token with a point or an exponent stands for its digits at their place. -/
theorem number?_real {numeral : Numeral}
    (point : numeral.fraction.isSome ∨ numeral.exponent.isSome)
    (few : Nat.ofDigitChars 10 (numeral.whole ++ numeral.fraction.getD []) 0 < 2 ^ 64) :
    numeral.number? =
      (real? (Nat.ofDigitChars 10 (numeral.whole ++ numeral.fraction.getD []) 0)
        (-((numeral.fraction.getD []).length : Int)) numeral.exponent).map
          fun x => .real (signed numeral.negative x) := by
  obtain ⟨negative, whole, fraction, exponent⟩ := numeral
  rw [Nat.ofDigitChars_append] at few ⊢
  have gathered := gather_eq whole (Nat.lt_of_le_of_lt (le_ofDigitChars _ _) few)
  cases fraction with
  | none =>
      cases exponent with
      | none => simp at point
      | some written => simp [number?, gathered]
  | some fraction =>
      have all := gather_eq fraction few
      simp [number?, gathered, all]

end ArchiveRemap.Json.Numeral
