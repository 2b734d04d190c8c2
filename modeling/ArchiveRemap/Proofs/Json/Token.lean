import ArchiveRemap.Proofs.Json.Numeral
import ArchiveRemap.Proofs.Json.Scale

/-!
The tokens with which numbers are written. A whole number is its digits. A binary number is
the digits of its shortest decimal with a point or an exponent where the layout puts them;
whichever of the four layouts it is, the token is legal and can be read.
-/

namespace ArchiveRemap.Json

/-! Decimal digits. -/

theorem areDigits_toDigits (n : Nat) : AreDigits (Nat.toDigits 10 n) :=
  ⟨Nat.toDigits_ne_nil, fun _ => Nat.isDigit_of_mem_toDigits (by decide) (by decide)⟩

theorem areDigits_zeros (count : Nat) {digits : List Char} (are : AreDigits digits) :
    AreDigits (List.replicate count '0' ++ digits) := by
  refine ⟨List.append_ne_nil_of_right_ne_nil _ are.1, fun c member => ?_⟩
  rcases List.mem_append.mp member with zero | other
  · rw [List.eq_of_mem_replicate zero]
    rfl
  · exact are.2 c other

theorem areDigits_append_zeros {digits : List Char} (are : AreDigits digits) (count : Nat) :
    AreDigits (digits ++ List.replicate count '0') := by
  refine ⟨List.append_ne_nil_of_left_ne_nil are.1 _, fun c member => ?_⟩
  rcases List.mem_append.mp member with other | zero
  · exact are.2 c other
  · rw [List.eq_of_mem_replicate zero]
    rfl

/-- Only zero starts with a zero. -/
theorem eq_zero_of_head?_toDigits (n : Nat) (zero : (Nat.toDigits 10 n).head? = some '0') :
    n = 0 := by
  induction n using Nat.strongRecOn with
  | ind n ih =>
      rcases Nat.lt_or_ge n 10 with small | large
      · rw [Nat.toDigits_of_lt_base small] at zero
        have lead : ∀ digit < 10, Nat.digitChar digit = '0' → digit = 0 := by decide
        exact lead n small (Option.some.inj zero)
      · obtain ⟨c, more, cut⟩ := List.exists_cons_of_ne_nil (@Nat.toDigits_ne_nil (n / 10) 10)
        rw [Nat.toDigits_of_base_le (by decide) large, cut] at zero
        have : n / 10 = 0 := ih (n / 10) (by omega) (cut ▸ zero)
        omega

theorem AreDigits.take {digits : List Char} (are : AreDigits digits) {count : Nat}
    (some : count ≠ 0) : AreDigits (digits.take count) := by
  refine ⟨fun none => ?_, fun c member => are.2 c (List.mem_of_mem_take member)⟩
  rcases List.take_eq_nil_iff.mp none with zero | empty
  · exact some zero
  · exact are.1 empty

theorem AreDigits.drop {digits : List Char} (are : AreDigits digits) {count : Nat}
    (less : count < digits.length) : AreDigits (digits.drop count) := by
  refine ⟨fun none => ?_, fun c member => are.2 c (List.mem_of_mem_drop member)⟩
  have := List.drop_eq_nil_iff.mp none
  omega

theorem eq_of_head?_toDigits {n : Nat} (zero : (Nat.toDigits 10 n).head? = some '0') :
    Nat.toDigits 10 n = ['0'] := by
  rw [eq_zero_of_head?_toDigits n zero]
  rfl

namespace Numeral

/-! Whole numbers. -/

/-- The token of a whole number. -/
def ofInteger (number : Int) : Numeral :=
  ⟨number < 0, Nat.toDigits 10 number.natAbs, none, none⟩

theorem legal_ofInteger (number : Int) : (ofInteger number).Legal where
  whole := areDigits_toDigits _
  leading := eq_of_head?_toDigits
  fraction _ found := nomatch found
  exponent _ found := nomatch found

theorem toList_toString (number : Int) :
    (toString number).toList =
      (if number < 0 then ['-'] else []) ++ Nat.toDigits 10 number.natAbs := by
  rw [Int.toString_eq_repr, Int.repr_eq_if]
  split
  · have size : number.toNat = number.natAbs := by omega
    rw [if_neg (by omega), Nat.toList_repr, size, List.nil_append]
  · have size : (-number).toNat = number.natAbs := by omega
    rw [if_pos (by omega), String.toList_append, Nat.toList_repr, size]
    rfl

theorem write_ofInteger (number : Int) :
    (ofInteger number).write = (toString number).toList := by
  rw [toList_toString]
  simp [ofInteger, write, writeFraction, writeExponent]

theorem number?_ofInteger {number : Int} (low : -(2 ^ 63) ≤ number) (high : number < 2 ^ 64) :
    (ofInteger number).number? = some (.integer number) := by
  have few : Nat.ofDigitChars 10 (Nat.toDigits 10 number.natAbs) 0 < 2 ^ 64 := by
    rw [Nat.ofDigitChars_ten_toDigits]
    omega
  have gathered := gather_eq (Nat.toDigits 10 number.natAbs) few
  rw [Nat.ofDigitChars_ten_toDigits] at gathered
  simp only [number?, ofInteger, gathered]
  by_cases negative : number < 0
  · have size : (decide (number.natAbs = 0) || decide (2 ^ 63 < number.natAbs)) = false := by
      rw [Bool.or_eq_false_iff, decide_eq_false_iff_not, decide_eq_false_iff_not]
      omega
    have back : -(number.natAbs : Int) = number := by omega
    simp only [decide_eq_true negative, Bool.not_true, Bool.false_eq_true, if_false, size, back]
  · have back : (number.natAbs : Int) = number := by omega
    simp only [decide_eq_false negative, Bool.not_false, if_true, back]

/-! Binary numbers. -/

/-- The token that a layout of digits writes. -/
def ofLayout (negative : Bool) (digits : List Char) (exponent : Int) : Numeral :=
  let point : Int := digits.length + exponent
  let zeros (n : Int) : List Char := List.replicate n.toNat '0'
  if 0 ≤ exponent && point ≤ 16 then
    ⟨negative, digits ++ zeros exponent, some ['0'], none⟩
  else if 0 < point && point ≤ 16 then
    ⟨negative, digits.take point.toNat, some (digits.drop point.toNat), none⟩
  else if -5 < point && point ≤ 0 then
    ⟨negative, ['0'], some (zeros (-point) ++ digits), none⟩
  else
    let fraction := match digits.drop 1 with
      | [] => none
      | more => some more
    ⟨negative, digits.take 1, fraction,
      some (point - 1 < 0, Nat.toDigits 10 (point - 1).natAbs)⟩

/-- The token of a binary number. -/
def ofDouble (x : Double) : Numeral :=
  if x.isZero then ⟨x.negative, ['0'], some ['0'], none⟩
  else ofLayout x.negative (Nat.toDigits 10 x.shortest.digits) x.shortest.exponent

theorem write_ofLayout (negative : Bool) (digits : List Char) (exponent : Int) :
    (ofLayout negative digits exponent).write =
      (if negative then ['-'] else []) ++ Double.layout digits exponent := by
  unfold ofLayout Double.layout
  dsimp only
  split
  · simp [write, writeFraction, writeExponent]
  · split
    · simp [write, writeFraction, writeExponent]
    · split
      · simp [write, writeFraction, writeExponent]
      · rw [toList_toString]
        cases digits.drop 1 <;>
          simp [write, writeFraction, writeExponent]

theorem write_ofDouble (x : Double) : (ofDouble x).write = x.text := by
  unfold ofDouble Double.text
  dsimp only
  split
  · simp [write, writeFraction, writeExponent]
  · exact write_ofLayout ..

/-- The four layouts: zeros after the digits, the point among them, zeros before them, or an
exponent. What holds of each of them where it is chosen holds of the token. -/
theorem ofLayout_cases {motive : Numeral → Prop} (negative : Bool) (digits : List Char)
    (exponent : Int)
    (padded : 0 ≤ exponent → digits.length + exponent ≤ 16 →
      motive ⟨negative, digits ++ List.replicate exponent.toNat '0', some ['0'], none⟩)
    (pointed : exponent < 0 → 0 < digits.length + exponent →
      motive ⟨negative, digits.take (digits.length + exponent).toNat,
        some (digits.drop (digits.length + exponent).toNat), none⟩)
    (led : digits.length + exponent ≤ 0 →
      motive ⟨negative, ['0'],
        some (List.replicate (-(digits.length + exponent)).toNat '0' ++ digits), none⟩)
    (scientific : ∀ fraction : Option (List Char), fraction.getD [] = digits.drop 1 →
      (∀ more ∈ fraction, 1 < digits.length) →
        motive ⟨negative, digits.take 1, fraction, some (digits.length + exponent - 1 < 0,
          Nat.toDigits 10 (digits.length + exponent - 1).natAbs)⟩) :
    motive (ofLayout negative digits exponent) := by
  unfold ofLayout
  dsimp only
  split
  case isTrue whole =>
    simp only [Bool.and_eq_true, decide_eq_true_eq] at whole
    exact padded whole.1 whole.2
  case isFalse whole =>
    split
    case isTrue inside =>
      simp only [Bool.and_eq_true, decide_eq_true_eq] at whole inside
      exact pointed (by omega) inside.1
    case isFalse =>
      split
      case isTrue behind =>
        simp only [Bool.and_eq_true, decide_eq_true_eq] at behind
        exact led behind.2
      case isFalse =>
        -- One digit alone has no point after it.
        cases more : digits.drop 1 with
        | nil => exact scientific none more.symm nofun
        | cons c rest =>
            refine scientific (some (c :: rest)) more.symm fun _ _ => ?_
            have length := congrArg List.length more
            simp only [List.length_drop, List.length_cons] at length
            omega

/-! A layout is legal. -/

theorem legal_ofLayout (negative : Bool) {decimal : Decimal}
    (zero : decimal.digits = 0 → decimal.exponent = 0) :
    (ofLayout negative (Nat.toDigits 10 decimal.digits) decimal.exponent).Legal := by
  have are := areDigits_toDigits decimal.digits
  have leading := eq_zero_of_head?_toDigits decimal.digits
  apply ofLayout_cases
  case padded =>
    intro _ _
    refine ⟨areDigits_append_zeros are _, fun lead => ?_, ?_, nofun⟩
    · obtain ⟨c, more, cut⟩ := List.exists_cons_of_ne_nil are.1
      rw [cut] at lead
      have none := leading (cut ▸ lead)
      rw [none, zero none]
      rfl
    · rintro _ ⟨⟩
      exact areDigits_toDigits 0
  case pointed =>
    intro down positive
    refine ⟨are.take (by omega), fun lead => ?_, ?_, nofun⟩
    · rw [List.head?_take, if_neg (by omega)] at lead
      have := zero (leading lead)
      omega
    · rintro _ ⟨⟩
      exact are.drop (by omega)
  case led =>
    intro _
    refine ⟨areDigits_toDigits 0, fun _ => rfl, ?_, nofun⟩
    rintro _ ⟨⟩
    exact areDigits_zeros _ are
  case scientific =>
    intro fraction rest several
    refine ⟨are.take (by decide), fun lead => ?_, fun more found => ?_, ?_⟩
    · rw [List.head?_take, if_neg (by decide)] at lead
      rw [leading lead]
      rfl
    · have length := several more found
      rw [Option.mem_def] at found
      subst found
      rw [Option.getD_some] at rest
      subst rest
      exact are.drop length
    · rintro _ ⟨⟩
      exact areDigits_toDigits _

/-- A finite number is written as a legal token. -/
theorem legal_ofDouble {x : Double} (finite : x.Finite) : (ofDouble x).Legal := by
  unfold ofDouble
  split
  · refine ⟨areDigits_toDigits 0, fun _ => rfl, ?_, nofun⟩
    rintro _ ⟨⟩
    exact areDigits_toDigits 0
  · rename_i some
    exact legal_ofLayout _ (Double.small_shortest finite (by simpa [Double.isZero] using some)).zero

/-! A layout can be read. -/

/-- The token stands for a number. -/
def IsReal (numeral : Numeral) : Prop := ∃ x, numeral.number? = some (.real x)

theorem isReal_of_isSome {numeral : Numeral}
    (point : numeral.fraction.isSome ∨ numeral.exponent.isSome)
    (few : Nat.ofDigitChars 10 (numeral.whole ++ numeral.fraction.getD []) 0 < 2 ^ 64)
    (read : (real? (Nat.ofDigitChars 10 (numeral.whole ++ numeral.fraction.getD []) 0)
      (-((numeral.fraction.getD []).length : Int)) numeral.exponent).isSome) :
    numeral.IsReal := by
  obtain ⟨x, found⟩ := Option.isSome_iff_exists.mp read
  exact ⟨_, by rw [number?_real point few, found]; rfl⟩

/-- Digits with zeros after them, and one zero after the point. -/
theorem ofDigitChars_padded (n count : Nat) :
    Nat.ofDigitChars 10 (Nat.toDigits 10 n ++ List.replicate count '0' ++ ['0']) 0 =
      10 * (10 ^ count * n) := by
  rw [Nat.ofDigitChars_append, Nat.ofDigitChars_append, Nat.ofDigitChars_ten_toDigits,
    Nat.ofDigitChars_replicate_zero, Nat.ofDigitChars_cons, Nat.ofDigitChars_nil]
  rfl

theorem padded_le {n count places : Nat}
    (few : (Nat.toDigits 10 n).length + count ≤ places) : 10 ^ count * n ≤ 10 ^ places := by
  have length : n < 10 ^ (Nat.toDigits 10 n).length :=
    (Nat.length_toDigits_le_iff (by decide) Nat.length_toDigits_pos).mp (Nat.le_refl _)
  calc 10 ^ count * n
      ≤ 10 ^ count * 10 ^ (Nat.toDigits 10 n).length :=
        Nat.mul_le_mul_left _ (Nat.le_of_lt length)
    _ = 10 ^ (count + (Nat.toDigits 10 n).length) := (Nat.pow_add ..).symm
    _ ≤ 10 ^ places := Nat.pow_le_pow_right (by decide) (by omega)

/-- Zeros before digits count for nothing. -/
theorem ofDigitChars_led (n count : Nat) :
    Nat.ofDigitChars 10 (['0'] ++ (List.replicate count '0' ++ Nat.toDigits 10 n)) 0 = n := by
  rw [Nat.ofDigitChars_append, Nat.ofDigitChars_append, Nat.ofDigitChars_replicate_zero]
  exact Nat.ofDigitChars_ten_toDigits

theorem isReal_ofLayout (negative : Bool) {decimal : Decimal} (small : decimal.Small) :
    (ofLayout negative (Nat.toDigits 10 decimal.digits) decimal.exponent).IsReal := by
  have few := small.digits
  have some := @Nat.length_toDigits_pos 10 decimal.digits
  apply ofLayout_cases
  case padded =>
    intro up places
    have size : 10 ^ decimal.exponent.toNat * decimal.digits ≤ 10 ^ 16 :=
      padded_le (by omega)
    refine isReal_of_isSome (.inl rfl) ?_ ?_
    · rw [Option.getD_some, ofDigitChars_padded]
      omega
    · rw [Option.getD_some, ofDigitChars_padded]
      exact isSome_real?_positional (by omega) (by decide)
  case pointed =>
    intro down positive
    refine isReal_of_isSome (.inl rfl) ?_ ?_
    · simp only [Option.getD_some, List.take_append_drop, Nat.ofDigitChars_ten_toDigits]
      omega
    · simp only [Option.getD_some, List.take_append_drop, Nat.ofDigitChars_ten_toDigits,
        List.length_drop]
      exact isSome_real?_positional (by omega) (by omega)
  case led =>
    intro _
    refine isReal_of_isSome (.inl rfl) ?_ ?_
    · rw [Option.getD_some, ofDigitChars_led]
      omega
    · rw [Option.getD_some, ofDigitChars_led]
      exact isSome_real?_positional (by omega) (by
        simp only [List.length_append]
        omega)
  case scientific =>
    intro fraction rest _
    have short : (Nat.toDigits 10 decimal.digits).length ≤ 18 :=
      (Nat.length_toDigits_le_iff (by decide) (by decide)).mpr (by omega)
    refine isReal_of_isSome (.inr rfl) ?_ ?_
    · simp only [rest, List.take_append_drop, Nat.ofDigitChars_ten_toDigits]
      omega
    · simp only [rest, List.take_append_drop, Nat.ofDigitChars_ten_toDigits, List.length_drop]
      refine isSome_real?_scientific small (by omega) ?_
      rw [Nat.ofDigitChars_ten_toDigits]
      simp only [decide_eq_true_eq]
      split <;> omega

theorem isReal_ofDouble {x : Double} (finite : x.Finite) : (ofDouble x).IsReal := by
  unfold ofDouble
  split
  · have down : -((1 : Nat) : Int) < 0 := by decide
    exact isReal_of_isSome (.inl rfl) (Nat.two_pow_pos 64)
      (isSome_real?_positional (Nat.zero_le _) down)
  · rename_i some
    exact isReal_ofLayout _ (Double.small_shortest finite (by simpa [Double.isZero] using some))

end Numeral

end ArchiveRemap.Json
