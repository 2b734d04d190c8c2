import ArchiveRemap.Number.Double

/-!
The shortest decimal text of a number. Of all decimals that round to the number the ones
with the fewest digits are taken, and of these the nearest. Two neighbours on the decimal
grid of each size are enough to look at: if any point of the grid rounds to the number,
one of these two does.
-/

namespace ArchiveRemap

structure Decimal where
  digits : Nat
  exponent : Int
  deriving DecidableEq, Repr

namespace Double

def digitCount (n : Nat) : Nat := (Nat.toDigits 10 n).length

/-- The exponent of the first significant decimal digit. -/
def leadingPlace (x : Double) : Int :=
  (digitCount (x.numerator * 10 ^ 400 / x.denominator) : Int) - 401

/-- Whether `digits · 10 ^ place` rounds to the number. Distances are counted in quarters
of the last binary place; below a power of two the lower neighbour is half as far. -/
def roundsFrom (x : Double) (digits : Nat) (place : Int) : Bool :=
  let point := 4 * (digits * 10 ^ place.toNat * 2 ^ (-x.exponent).toNat)
  let unit := 10 ^ (-place).toNat * 2 ^ x.exponent.toNat
  let below := if x.mantissa = 2 ^ 52 && -1074 < x.exponent then 1 else 2
  let low := (4 * x.mantissa - below) * unit
  let high := (4 * x.mantissa + 2) * unit
  if x.mantissa % 2 = 0 then low ≤ point && point ≤ high else low < point && point < high

/-- The better of the two neighbours of the number on the grid of a decimal place. -/
def onGrid? (x : Double) (place : Int) : Option Decimal :=
  let num := x.numerator * 10 ^ (-place).toNat
  let den := x.denominator * 10 ^ place.toNat
  let low := num / den
  let rest := 2 * (num % den)
  let lowFits := roundsFrom x low place
  let highFits := roundsFrom x (low + 1) place
  let lowFirst := rest < den || (rest = den && low % 2 = 0)
  if lowFits && (lowFirst || !highFits) then some ⟨low, place⟩
  else if highFits then some ⟨low + 1, place⟩
  else none

/-- Trailing zeros moved into the exponent, at most as many as there are digits. -/
def dropZeros : Nat → Decimal → Decimal
  | 0, decimal => decimal
  | count + 1, decimal =>
      if decimal.digits % 10 = 0 && decimal.digits != 0 then
        dropZeros count ⟨decimal.digits / 10, decimal.exponent + 1⟩
      else decimal

/-- The first grid that has a point for the number, from one digit up to seventeen. -/
def shortest (x : Double) : Decimal :=
  let sizes := (List.range 17).map fun count : Nat => x.leadingPlace - count
  dropZeros 18 ((sizes.findSome? x.onGrid?).getD ⟨0, 0⟩)

/-- Positional with at least one digit on both sides of the point when the point falls
within the first sixteen places or at most four zeros follow it, else with an exponent. -/
def layout (digits : List Char) (exponent : Int) : List Char :=
  let count : Int := digits.length
  let point := count + exponent
  let zeros (n : Int) : List Char := List.replicate n.toNat '0'
  if 0 ≤ exponent && point ≤ 16 then digits ++ zeros exponent ++ ".0".toList
  else if 0 < point && point ≤ 16 then
    digits.take point.toNat ++ '.' :: digits.drop point.toNat
  else if -5 < point && point ≤ 0 then "0.".toList ++ zeros (-point) ++ digits
  else
    let tail := match digits.drop 1 with
      | [] => []
      | more => '.' :: more
    digits.take 1 ++ tail ++ 'e' :: (toString (point - 1)).toList

def text (x : Double) : List Char :=
  let sign := if x.negative then ['-'] else []
  if x.isZero then sign ++ "0.0".toList
  else
    let decimal := x.shortest
    sign ++ layout (Nat.toDigits 10 decimal.digits) decimal.exponent

end Double

end ArchiveRemap
