import ArchiveRemap.Number.Shortest

/-!
Rounding a ratio to a binary number. The power of two below the ratio fixes the exponent, so
the mantissa has at most 53 bits; it is off by at most half a place. What is rounded is a
number of the range, and a ratio has no number only from half a place past the last one on.
-/

namespace ArchiveRemap.Double

/-! The power of two below a ratio. -/

theorem log2Ratio_le {num den : Nat} (nonzero : num ≠ 0) :
    den * 2 ^ (log2Ratio num den).toNat ≤ num * 2 ^ (-log2Ratio num den).toNat := by
  have numLow : 2 ^ num.log2 ≤ num := Nat.log2_self_le nonzero
  have denHigh : den < 2 ^ (den.log2 + 1) := Nat.lt_log2_self
  unfold log2Ratio
  dsimp only
  split
  · rcases Nat.lt_or_ge den.log2 num.log2 with up | down
    · obtain ⟨gap, rise⟩ := Nat.exists_eq_add_of_lt up
      have shift : ((num.log2 : Int) - den.log2 - 1).toNat = gap := by omega
      have none : (-((num.log2 : Int) - den.log2 - 1)).toNat = 0 := by omega
      rw [shift, none, Nat.pow_zero, Nat.mul_one]
      calc den * 2 ^ gap ≤ 2 ^ (den.log2 + 1) * 2 ^ gap :=
            Nat.mul_le_mul_right _ (Nat.le_of_lt denHigh)
        _ = 2 ^ num.log2 := by rw [← Nat.pow_add, rise]; congr 1; omega
        _ ≤ num := numLow
    · obtain ⟨gap, fall⟩ := Nat.exists_eq_add_of_le down
      have none : ((num.log2 : Int) - den.log2 - 1).toNat = 0 := by omega
      have shift : (-((num.log2 : Int) - den.log2 - 1)).toNat = gap + 1 := by omega
      rw [shift, none, Nat.pow_zero, Nat.mul_one]
      calc den ≤ 2 ^ (den.log2 + 1) := Nat.le_of_lt denHigh
        _ = 2 ^ num.log2 * 2 ^ (gap + 1) := by rw [← Nat.pow_add, fall]; congr 1
        _ ≤ num * 2 ^ (gap + 1) := Nat.mul_le_mul_right _ numLow
  · omega

theorem lt_log2Ratio {num den : Nat} (nonzero : den ≠ 0) :
    num * 2 ^ (-(log2Ratio num den + 1)).toNat < den * 2 ^ (log2Ratio num den + 1).toNat := by
  have numHigh : num < 2 ^ (num.log2 + 1) := Nat.lt_log2_self
  have denLow : 2 ^ den.log2 ≤ den := Nat.log2_self_le nonzero
  unfold log2Ratio
  dsimp only
  split
  · rename_i less
    simpa only [Int.sub_add_cancel] using less
  · rcases Nat.lt_or_ge num.log2 den.log2 with down | up
    · obtain ⟨gap, fall⟩ := Nat.exists_eq_add_of_lt down
      have none : ((num.log2 : Int) - den.log2 + 1).toNat = 0 := by omega
      have shift : (-((num.log2 : Int) - den.log2 + 1)).toNat = gap := by omega
      rw [shift, none, Nat.pow_zero, Nat.mul_one]
      calc num * 2 ^ gap < 2 ^ (num.log2 + 1) * 2 ^ gap :=
            Nat.mul_lt_mul_of_pos_right numHigh (Nat.two_pow_pos gap)
        _ = 2 ^ den.log2 := by rw [← Nat.pow_add, fall]; congr 1; omega
        _ ≤ den := denLow
    · obtain ⟨gap, rise⟩ := Nat.exists_eq_add_of_le up
      have shift : ((num.log2 : Int) - den.log2 + 1).toNat = gap + 1 := by omega
      have none : (-((num.log2 : Int) - den.log2 + 1)).toNat = 0 := by omega
      rw [shift, none, Nat.pow_zero, Nat.mul_one]
      calc num < 2 ^ (num.log2 + 1) := numHigh
        _ = 2 ^ den.log2 * 2 ^ (gap + 1) := by rw [← Nat.pow_add, rise]; congr 1
        _ ≤ den * 2 ^ (gap + 1) := Nat.mul_le_mul_right _ denLow

/-! Rounding. -/

/-- A rounded quotient is at most a half above the quotient. -/
theorem two_mul_roundDiv_le (num den : Nat) : 2 * roundDiv num den * den ≤ 2 * num + den := by
  have split : den * (num / den) + num % den = num := Nat.div_add_mod num den
  have whole : num / den * den = den * (num / den) := Nat.mul_comm ..
  have carried : (num / den + 1) * den = den * (num / den) + den := by
    rw [Nat.add_mul, whole, Nat.one_mul]
  unfold roundDiv
  dsimp only
  split
  · rw [Nat.mul_assoc, whole]
    omega
  · split
    · rw [Nat.mul_assoc, carried]
      omega
    · rcases Nat.mod_two_eq_zero_or_one (num / den) with even | odd
      · rw [even, Nat.add_zero, Nat.mul_assoc, whole]
        omega
      · rw [odd, Nat.mul_assoc, carried]
        omega

theorem roundDiv_le_of_lt {num den bound : Nat} (less : num < bound * den) :
    roundDiv num den ≤ bound := by
  refine Nat.le_of_not_lt fun above => ?_
  have high : (bound + 1) * den ≤ roundDiv num den * den := Nat.mul_le_mul_right den above
  have near := two_mul_roundDiv_le num den
  rw [Nat.mul_assoc] at near
  rw [Nat.add_mul, Nat.one_mul] at high
  omega

/-- The exponent with which a ratio is rounded. -/
def exponentOf (num den : Nat) : Int := max (log2Ratio num den - 52) (-1074)

/-- The mantissa to which a ratio is rounded, before it is carried over. -/
def mantissaOf (num den : Nat) : Nat :=
  roundDiv (num * 2 ^ (-exponentOf num den).toNat) (den * 2 ^ (exponentOf num den).toNat)

theorem ofRatio?_eq (negative : Bool) {num : Nat} (nonzero : num ≠ 0) (den : Nat) :
    ofRatio? negative num den =
      let carried := mantissaOf num den = 2 ^ 53
      let last := if carried then exponentOf num den + 1 else exponentOf num den
      if 971 < last then none
      else some ⟨negative, if carried then 2 ^ 52 else mantissaOf num den, last⟩ := by
  rw [ofRatio?, if_neg nonzero]
  rfl

theorem mantissaOf_le {num den : Nat} (nonzero : den ≠ 0) : mantissaOf num den ≤ 2 ^ 53 := by
  have high := @lt_log2Ratio num den nonzero
  apply roundDiv_le_of_lt
  unfold exponentOf
  generalize log2Ratio num den = place at high ⊢
  by_cases small : place < 52
  · -- below 2 ^ 53 the numerator is scaled up by at most what is missing
    have none : (max (place - 52) (-1074)).toNat = 0 := by omega
    rw [none, Nat.pow_zero, Nat.mul_one]
    generalize up : (-max (place - 52) (-1074)).toNat = shift
    by_cases below : place < -1
    · have gap : shift ≤ (-(place + 1)).toNat + 53 := by omega
      have flat : (place + 1).toNat = 0 := by omega
      rw [flat, Nat.pow_zero, Nat.mul_one] at high
      calc num * 2 ^ shift ≤ num * 2 ^ ((-(place + 1)).toNat + 53) :=
            Nat.mul_le_mul_left num (Nat.pow_le_pow_right (by decide) gap)
        _ = num * 2 ^ (-(place + 1)).toNat * 2 ^ 53 := by rw [Nat.pow_add, Nat.mul_assoc]
        _ < den * 2 ^ 53 := Nat.mul_lt_mul_of_pos_right high (by decide)
        _ = 2 ^ 53 * den := Nat.mul_comm ..
    · have gap : (place + 1).toNat + shift ≤ 53 := by omega
      have flat : (-(place + 1)).toNat = 0 := by omega
      rw [flat, Nat.pow_zero, Nat.mul_one] at high
      calc num * 2 ^ shift < den * 2 ^ (place + 1).toNat * 2 ^ shift :=
            Nat.mul_lt_mul_of_pos_right high (Nat.two_pow_pos shift)
        _ = den * 2 ^ ((place + 1).toNat + shift) := by rw [Nat.pow_add, Nat.mul_assoc]
        _ ≤ den * 2 ^ 53 := Nat.mul_le_mul_left den (Nat.pow_le_pow_right (by decide) gap)
        _ = 2 ^ 53 * den := Nat.mul_comm ..
  · have none : (-max (place - 52) (-1074)).toNat = 0 := by omega
    have flat : (-(place + 1)).toNat = 0 := by omega
    have gap : (place + 1).toNat = (max (place - 52) (-1074)).toNat + 53 := by omega
    rw [flat, gap, Nat.pow_zero, Nat.mul_one] at high
    rw [none, Nat.pow_zero, Nat.mul_one]
    calc num < den * 2 ^ ((max (place - 52) (-1074)).toNat + 53) := high
      _ = 2 ^ 53 * (den * 2 ^ (max (place - 52) (-1074)).toNat) := by
        rw [Nat.pow_add, ← Nat.mul_assoc, Nat.mul_comm]

/-- A number of 53 bits within the range. -/
structure Finite (x : Double) : Prop where
  mantissa : x.mantissa < 2 ^ 53
  exponent : x.exponent ≤ 971

theorem finite_zero (negative : Bool) : (zero negative).Finite :=
  ⟨Nat.two_pow_pos 53, by simp [zero]⟩

theorem finite_of_ofRatio? {negative : Bool} {num den : Nat} (nonzero : den ≠ 0) {x : Double}
    (found : ofRatio? negative num den = some x) : x.Finite := by
  by_cases none : num = 0
  · rw [ofRatio?, if_pos none] at found
    cases found
    exact finite_zero negative
  · rw [ofRatio?_eq negative none] at found
    have bounded := @mantissaOf_le num den nonzero
    by_cases carried : mantissaOf num den = 2 ^ 53
    · simp only [carried, if_true, Option.ite_none_left_eq_some, Option.some.injEq] at found
      obtain ⟨inside, rfl⟩ := found
      exact ⟨Nat.pow_lt_pow_right (by decide) (by decide), Int.not_lt.mp inside⟩
    · simp only [carried, if_false, Option.ite_none_left_eq_some, Option.some.injEq] at found
      obtain ⟨inside, rfl⟩ := found
      exact ⟨Nat.lt_of_le_of_ne bounded carried, Int.not_lt.mp inside⟩

/-- Half of the last place of the greatest numbers. -/
def halfPlace : Nat := 2 ^ 970

/-- Half a place past the last number, where rounding leaves the range. -/
def limit : Nat := (2 ^ 54 - 1) * halfPlace

/-- Powers this large are never computed, so they are compared by their exponents. -/
theorem top_le {places : Nat} (far : 54 + 970 ≤ places) : 2 ^ 54 * halfPlace ≤ 2 ^ places := by
  rw [halfPlace, ← Nat.pow_add]
  generalize 54 + 970 = top at far ⊢
  exact Nat.pow_le_pow_right Nat.zero_lt_two far

theorem le_place {places more : Nat} (near : places ≤ more + 970) :
    2 ^ places ≤ 2 ^ more * halfPlace := by
  rw [halfPlace, ← Nat.pow_add]
  exact Nat.pow_le_pow_right Nat.zero_lt_two near

theorem place_eq {places : Nat} (last : places = 1 + 970) : 2 ^ places = 2 ^ 1 * halfPlace := by
  rw [halfPlace, ← Nat.pow_add, last]

theorem exponentOf_le_of_lt_limit {num den : Nat} (nonzero : num ≠ 0)
    (small : num < (2 ^ 54 - 1) * (halfPlace * den)) : exponentOf num den ≤ 971 := by
  refine Int.not_lt.mp fun above => ?_
  have far : 1024 ≤ log2Ratio num den := by
    unfold exponentOf at above
    omega
  have low := @log2Ratio_le num den nonzero
  have flat : (-log2Ratio num den).toNat = 0 := by omega
  have reaches : 54 + 970 ≤ (log2Ratio num den).toNat := by omega
  have high : 2 ^ 54 * halfPlace ≤ 2 ^ (log2Ratio num den).toNat := top_le reaches
  rw [flat, Nat.pow_zero, Nat.mul_one] at low
  have reached := Nat.le_trans (Nat.mul_le_mul_left den high) low
  rw [Nat.mul_left_comm, Nat.mul_comm den] at reached
  generalize halfPlace * den = unit at small reached
  omega

/-- At the last exponent nothing below the limit is rounded up to another place. -/
theorem exponentOf_ne_of_carried {num den : Nat}
    (small : num < (2 ^ 54 - 1) * (halfPlace * den)) (carried : mantissaOf num den = 2 ^ 53) :
    exponentOf num den ≠ 971 := by
  intro last
  have near := two_mul_roundDiv_le (num * 2 ^ (-exponentOf num den).toNat)
    (den * 2 ^ (exponentOf num den).toNat)
  have flat : (-(971 : Int)).toNat = 0 := rfl
  have places : (971 : Int).toNat = 1 + 970 := rfl
  rw [← mantissaOf, carried, last, flat, place_eq places, Nat.pow_zero, Nat.mul_one,
    Nat.mul_left_comm den, Nat.mul_comm den] at near
  generalize halfPlace * den = unit at small near
  omega

/-- A ratio below the limit can be rounded. -/
theorem isSome_ofRatio? (negative : Bool) {num den : Nat} (small : num < limit * den) :
    (ofRatio? negative num den).isSome := by
  rw [limit, Nat.mul_assoc] at small
  by_cases none : num = 0
  · rw [ofRatio?, if_pos none]
    rfl
  · have within := exponentOf_le_of_lt_limit none small
    rw [ofRatio?_eq negative none]
    by_cases carried : mantissaOf num den = 2 ^ 53
    · have uncarried := exponentOf_ne_of_carried small carried
      have inside : ¬ 971 < exponentOf num den + 1 := by omega
      simp only [carried, if_true, if_neg inside, Option.isSome_some]
    · have inside : ¬ 971 < exponentOf num den := by omega
      simp only [carried, if_false, if_neg inside, Option.isSome_some]

/-! How far a rounded number may lie above the ratio. -/

/-- A number is its mantissa times its power of two, whichever sign the exponent has. -/
theorem value_of_ofRatio? {negative : Bool} {num den : Nat} (nonzero : num ≠ 0) {x : Double}
    (found : ofRatio? negative num den = some x) :
    x.numerator * 2 ^ (-exponentOf num den).toNat =
      mantissaOf num den * 2 ^ (exponentOf num den).toNat * x.denominator := by
  rw [ofRatio?_eq negative nonzero] at found
  by_cases carried : mantissaOf num den = 2 ^ 53
  · simp only [carried, if_true, Option.ite_none_left_eq_some, Option.some.injEq] at found
    obtain ⟨-, rfl⟩ := found
    generalize exponentOf num den = exponent
    rw [carried, numerator, denominator, Nat.mul_assoc, Nat.mul_assoc, ← Nat.pow_add,
      ← Nat.pow_add, ← Nat.pow_add, ← Nat.pow_add]
    dsimp only
    congr 1
    omega
  · simp only [carried, if_false, Option.ite_none_left_eq_some, Option.some.injEq] at found
    obtain ⟨-, rfl⟩ := found
    rfl

theorem log2Ratio_nonneg {num den : Nat} (nonzero : den ≠ 0) (large : den ≤ num) :
    0 ≤ log2Ratio num den := by
  refine Int.not_lt.mp fun below => ?_
  have high := @lt_log2Ratio num den nonzero
  have flat : (log2Ratio num den + 1).toNat = 0 := by omega
  rw [flat, Nat.pow_zero, Nat.mul_one] at high
  exact Nat.lt_irrefl _ (Nat.lt_of_le_of_lt large
    (Nat.lt_of_le_of_lt (Nat.le_mul_of_pos_right num (Nat.two_pow_pos _)) high))

/-- From one on, the exponent leaves room for a mantissa of full size. -/
theorem le_scaled {num den : Nat} (nonzero : den ≠ 0) (large : den ≤ num) :
    2 ^ 52 * (den * 2 ^ (exponentOf num den).toNat) ≤
      num * 2 ^ (-exponentOf num den).toNat := by
  have low := @log2Ratio_le num den (by omega)
  have above := log2Ratio_nonneg nonzero large
  have flat : (-log2Ratio num den).toNat = 0 := by omega
  have shift : 52 + (exponentOf num den).toNat =
      (log2Ratio num den).toNat + (-exponentOf num den).toNat := by
    unfold exponentOf
    omega
  rw [flat, Nat.pow_zero, Nat.mul_one] at low
  calc 2 ^ 52 * (den * 2 ^ (exponentOf num den).toNat)
      = den * 2 ^ (52 + (exponentOf num den).toNat) := by rw [Nat.pow_add, Nat.mul_left_comm]
    _ = den * 2 ^ (log2Ratio num den).toNat * 2 ^ (-exponentOf num den).toNat := by
      rw [shift, Nat.pow_add, Nat.mul_assoc]
    _ ≤ num * 2 ^ (-exponentOf num den).toNat := Nat.mul_le_mul_right _ low

/-- From one on, a rounded number exceeds the ratio by at most one part in 2 ^ 53. -/
theorem le_of_ofRatio? {negative : Bool} {num den : Nat} (nonzero : den ≠ 0)
    (large : den ≤ num) {x : Double} (found : ofRatio? negative num den = some x) :
    x.numerator * den * 2 ^ 53 ≤ num * (2 ^ 53 + 1) * x.denominator := by
  have value := value_of_ofRatio? (by omega) found
  have near := two_mul_roundDiv_le (num * 2 ^ (-exponentOf num den).toNat)
    (den * 2 ^ (exponentOf num den).toNat)
  have full := le_scaled nonzero large
  rw [← mantissaOf] at near
  refine Nat.le_of_mul_le_mul_right ?_ (Nat.two_pow_pos (-exponentOf num den).toNat)
  generalize mantissaOf num den = mantissa at value near
  generalize 2 ^ (-exponentOf num den).toNat = down at value near full ⊢
  generalize 2 ^ (exponentOf num den).toNat = up at value near full
  have step : 2 ^ 53 * (mantissa * (den * up)) ≤ (2 ^ 53 + 1) * (num * down) := by
    rw [Nat.mul_assoc] at near
    omega
  calc x.numerator * den * 2 ^ 53 * down
      = x.numerator * down * (den * 2 ^ 53) := by ac_rfl
    _ = 2 ^ 53 * (mantissa * (den * up)) * x.denominator := by rw [value]; ac_rfl
    _ ≤ (2 ^ 53 + 1) * (num * down) * x.denominator := Nat.mul_le_mul_right _ step
    _ = num * (2 ^ 53 + 1) * x.denominator * down := by ac_rfl

end ArchiveRemap.Double
