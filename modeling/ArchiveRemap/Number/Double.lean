import ArchiveRemap.Number.Power

/-!
Finite binary numbers of 53 bits. A number is `± mantissa · 2 ^ exponent`; rounding takes
the nearest such number, and of two equally near ones the one with an even mantissa.
Exponents run from -1074 to 971, and what rounds beyond the last has no number.
-/

namespace ArchiveRemap

structure Double where
  negative : Bool
  mantissa : Nat
  exponent : Int
  deriving DecidableEq, Repr

namespace Double

def zero (negative : Bool) : Double := ⟨negative, 0, -1074⟩

def isZero (x : Double) : Bool := x.mantissa = 0

def negate (x : Double) : Double := { x with negative := !x.negative }

/-- The quotient as a whole number, to the nearest, a half to the even neighbour. -/
def roundDiv (num den : Nat) : Nat :=
  let whole := num / den
  let rest := 2 * (num % den)
  if rest < den then whole
  else if den < rest then whole + 1
  else whole + whole % 2

/-- The greatest power of two that is at most `num / den`, by its exponent. -/
def log2Ratio (num den : Nat) : Int :=
  let guess : Int := (num.log2 : Int) - den.log2
  if num * 2 ^ (-guess).toNat < den * 2 ^ guess.toNat then guess - 1 else guess

/-- The number nearest to `num / den`, unless it lies beyond all of them. -/
def ofRatio? (negative : Bool) (num den : Nat) : Option Double :=
  if num = 0 then some (zero negative)
  else
    let exponent := max (log2Ratio num den - 52) (-1074)
    let mantissa := roundDiv (num * 2 ^ (-exponent).toNat) (den * 2 ^ exponent.toNat)
    let carried := mantissa = 2 ^ 53
    let last := if carried then exponent + 1 else exponent
    if 971 < last then none
    else some ⟨negative, if carried then 2 ^ 52 else mantissa, last⟩

def numerator (x : Double) : Nat := x.mantissa * 2 ^ x.exponent.toNat

def denominator (x : Double) : Nat := 2 ^ (-x.exponent).toNat

def mul? (x y : Double) : Option Double :=
  ofRatio? (x.negative != y.negative) (x.numerator * y.numerator)
    (x.denominator * y.denominator)

def div? (x y : Double) : Option Double :=
  if y.isZero then none
  else ofRatio? (x.negative != y.negative) (x.numerator * y.denominator)
    (x.denominator * y.numerator)

end Double

end ArchiveRemap
