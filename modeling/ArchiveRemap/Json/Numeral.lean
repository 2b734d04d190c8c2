import ArchiveRemap.Number.Double

/-!
Number tokens and the numbers they stand for. Whole numbers that fit into 64 bits, with or
without sign, stay whole; everything else is a binary number. A binary number is made from
the leading digits that fit into 64 bits and a power of ten: the digits are rounded first,
then multiplied or divided by the rounded power, each step to the nearest. Powers beyond
10 ^ 308 are taken off in steps of 10 ^ 308. A number too large to represent has no value.
-/

namespace ArchiveRemap.Json

structure Numeral where
  negative : Bool
  whole : List Char
  fraction : Option (List Char)
  exponent : Option (Bool × List Char)
  deriving DecidableEq, Repr

inductive Number where
  | integer (number : Int)
  | real (number : Double)
  deriving Repr

namespace Numeral

def digitValue (c : Char) : Nat := c.toNat - 48

/-- Take digits while the significand fits into 64 bits; what is left comes second. -/
def gather (significand : Nat) : List Char → Nat × List Char
  | [] => (significand, [])
  | digit :: rest =>
      let next := significand * 10 + digitValue digit
      if next < 2 ^ 64 then gather next rest else (significand, digit :: rest)

def powerOfTen (places : Nat) : Double :=
  (Double.ofRatio? false (10 ^ places) 1).getD (Double.zero false)

/-- Divide by a power of ten, in steps of 308 places, until the number is zero. -/
def shrink : Nat → Nat → Double → Double
  | 0, _, x => x
  | steps + 1, places, x =>
      if places ≤ 308 then (x.div? (powerOfTen places)).getD x
      else if x.isZero then x
      else shrink steps (places - 308) ((x.div? (powerOfTen 308)).getD x)

/-- The number `significand · 10 ^ exponent`. -/
def scale? (significand : Nat) (exponent : Int) : Option Double := do
  let x ← Double.ofRatio? false significand 1
  if exponent < 0 then
    let places := (-exponent).toNat
    some (shrink (places / 308 + 1) places x)
  else if exponent ≤ 308 then x.mul? (powerOfTen exponent.toNat)
  else if x.isZero then some x
  else none

/-- An exponent as written, none when it does not fit into 31 bits. -/
def readExponent? (digits : List Char) : Option Nat :=
  digits.foldl (fun done digit => do
    let value ← done
    let next := value * 10 + digitValue digit
    if next < 2 ^ 31 then some next else none) (some 0)

/-- Add the written exponent to the places already counted. -/
def real? (significand : Nat) (places : Int) :
    Option (Bool × List Char) → Option Double
  | none => scale? significand places
  | some (down, digits) =>
      match readExponent? digits with
      | some value =>
          let total := if down then places - value else places + value
          scale? significand (max (-(2 ^ 31)) (min total (2 ^ 31 - 1)))
      | none => if significand = 0 || down then some (Double.zero false) else none

def signed (negative : Bool) (x : Double) : Double := if negative then x.negate else x

/-- The number a token stands for, unless it is too large. -/
def number? (numeral : Numeral) : Option Number :=
  let (significand, dropped) := gather 0 numeral.whole
  match dropped, numeral.fraction, numeral.exponent with
  | [], none, none =>
      if !numeral.negative then some (.integer significand)
      else if significand = 0 || 2 ^ 63 < significand then
        (Double.ofRatio? true significand 1).map .real
      else some (.integer (-significand))
  | dropped, none, exponent =>
      (real? significand dropped.length exponent).map fun x => .real (signed numeral.negative x)
  | dropped, some fraction, exponent =>
      let (all, rest) := gather significand fraction
      let places := (dropped.length : Int) - (fraction.length - rest.length : Nat)
      (real? all places exponent).map fun x => .real (signed numeral.negative x)

end Numeral

end ArchiveRemap.Json
