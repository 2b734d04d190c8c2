import ArchiveRemap.Json.Taking
import ArchiveRemap.Proofs.Json.Written

/-!
Values that were taken from a text. Their numbers are in range and they nest no deeper than a
text may, so such a value is written as a text from which a value can be taken again.
-/

namespace ArchiveRemap

/-! Numbers that come out of arithmetic and of tokens. -/

namespace Double

theorem denominator_ne_zero (x : Double) : x.denominator ≠ 0 :=
  Nat.ne_of_gt (Nat.two_pow_pos _)

theorem Finite.negate {x : Double} (finite : x.Finite) : x.negate.Finite :=
  ⟨finite.mantissa, finite.exponent⟩

theorem finite_of_mul? {x y product : Double} (found : x.mul? y = some product) :
    product.Finite :=
  finite_of_ofRatio? (Nat.mul_ne_zero x.denominator_ne_zero y.denominator_ne_zero) found

theorem finite_of_div? {x y quotient : Double} (found : x.div? y = some quotient) :
    quotient.Finite := by
  unfold div? at found
  split at found
  · cases found
  · rename_i nonzero
    have mantissa : y.mantissa ≠ 0 := by simpa [isZero] using nonzero
    exact finite_of_ofRatio? (Nat.mul_ne_zero x.denominator_ne_zero
      (Nat.mul_ne_zero mantissa (Nat.ne_of_gt (Nat.two_pow_pos _)))) found

end Double

namespace Json

namespace Numeral

theorem finite_getD {x : Double} (finite : x.Finite) {quotient : Option Double}
    (each : ∀ y, quotient = some y → y.Finite) : (quotient.getD x).Finite := by
  cases quotient with
  | none => exact finite
  | some y => exact each y rfl

theorem finite_shrink (steps places : Nat) {x : Double} (finite : x.Finite) :
    (shrink steps places x).Finite := by
  induction steps generalizing places x with
  | zero => exact finite
  | succ steps ih =>
      rw [shrink]
      split
      · exact finite_getD finite fun _ => Double.finite_of_div?
      · split
        · exact finite
        · exact ih _ (finite_getD finite fun _ => Double.finite_of_div?)

theorem finite_of_scale? {significand : Nat} {exponent : Int} {x : Double}
    (found : scale? significand exponent = some x) : x.Finite := by
  obtain ⟨start, whole, found⟩ := Option.bind_eq_some_iff.mp found
  have finite := Double.finite_of_ofRatio? (by decide) whole
  split at found
  · cases found
    exact finite_shrink _ _ finite
  · split at found
    · exact Double.finite_of_mul? found
    · split at found
      · cases found
        exact finite
      · cases found

theorem finite_of_real? {significand : Nat} {places : Int} {exponent : Option (Bool × List Char)}
    {x : Double} (found : real? significand places exponent = some x) : x.Finite := by
  unfold real? at found
  split at found
  · exact finite_of_scale? found
  · split at found
    · exact finite_of_scale? found
    · split at found
      · cases found
        exact Double.finite_zero false
      · cases found

theorem finite_signed (negative : Bool) {x : Double} (finite : x.Finite) :
    (signed negative x).Finite := by
  cases negative with
  | true => exact finite.negate
  | false => exact finite

theorem gather_lt (digits : List Char) {start : Nat} (few : start < 2 ^ 64) :
    (gather start digits).1 < 2 ^ 64 := by
  induction digits generalizing start with
  | nil => exact few
  | cons digit rest ih =>
      rw [gather]
      split
      · exact ih ‹_›
      · exact few

/-- Numbers as a text can hold them. -/
inductive InRange : Number → Prop where
  | integer {number : Int} (low : -(2 ^ 63) ≤ number) (high : number < 2 ^ 64) :
      InRange (.integer number)
  | real {number : Double} (finite : number.Finite) : InRange (.real number)

theorem inRange_of_number? {numeral : Numeral} {number : Number}
    (found : numeral.number? = some number) : InRange number := by
  have few := gather_lt numeral.whole (Nat.two_pow_pos 64)
  unfold number? at found
  generalize gather 0 numeral.whole = gathered at found few
  obtain ⟨significand, dropped⟩ := gathered
  dsimp only at found few
  split at found
  · split at found
    · cases found
      exact .integer (by omega) (by omega)
    · split at found
      · obtain ⟨x, rounded, rfl⟩ := Option.map_eq_some_iff.mp found
        exact .real (Double.finite_of_ofRatio? (by decide) rounded)
      · rename_i small
        simp only [Bool.or_eq_true, decide_eq_true_eq, not_or] at small
        cases found
        exact .integer (by omega) (by omega)
  · obtain ⟨x, scaled, rfl⟩ := Option.map_eq_some_iff.mp found
    exact .real (finite_signed _ (finite_of_real? scaled))
  · obtain ⟨x, scaled, rfl⟩ := Option.map_eq_some_iff.mp found
    exact .real (finite_signed _ (finite_of_real? scaled))

end Numeral

/-! Values that were taken. -/

namespace Tree

mutual

theorem fits_of_valueWithin? {room : Nat} {value : Value} :
    (tree : Tree) → tree.valueWithin? room = some value → value.Fits room
  | .null, found => by
      cases found
      exact .null
  | .bool truth, found => by
      cases found
      exact .bool truth
  | .number numeral, found => by
      rw [valueWithin?] at found
      split at found
      · rename_i number
        cases found
        cases Numeral.inRange_of_number? number with
        | integer low high => exact .integer low high
      · rename_i number
        cases found
        cases Numeral.inRange_of_number? number with
        | real finite => exact .real finite
      · cases found
  | .string text, found => by
      obtain ⟨whole, -, rfl⟩ := Option.map_eq_some_iff.mp found
      exact .string whole
  | .array items, found => by
      cases room with
      | zero => cases found
      | succ room =>
          obtain ⟨values, taken, rfl⟩ := Option.map_eq_some_iff.mp found
          exact .array (fits_of_itemValues? items taken)
  | .object members, found => by
      cases room with
      | zero => cases found
      | succ room =>
          obtain ⟨pairs, taken, rfl⟩ := Option.map_eq_some_iff.mp found
          exact .object fun member inside =>
            fits_of_memberValues? members taken member (Dictionary.mem_of_mem_ofList inside)

theorem fits_of_itemValues? {room : Nat} {values : List Value} :
    (items : List Tree) → itemValues? room items = some values →
      ∀ value ∈ values, value.Fits room
  | [], found => by
      cases found
      nofun
  | item :: rest, found => by
      obtain ⟨first, taken, found⟩ := Option.bind_eq_some_iff.mp found
      obtain ⟨others, more, found⟩ := Option.bind_eq_some_iff.mp found
      cases found
      exact List.forall_mem_cons.mpr
        ⟨fits_of_valueWithin? item taken, fits_of_itemValues? rest more⟩

theorem fits_of_memberValues? {room : Nat} {pairs : List (String × Value)} :
    (members : List (Option String × Tree)) → memberValues? room members = some pairs →
      ∀ pair ∈ pairs, pair.2.Fits room
  | [], found => by
      cases found
      nofun
  | (key, item) :: rest, found => by
      obtain ⟨name, -, found⟩ := Option.bind_eq_some_iff.mp found
      obtain ⟨first, taken, found⟩ := Option.bind_eq_some_iff.mp found
      obtain ⟨others, more, found⟩ := Option.bind_eq_some_iff.mp found
      cases found
      exact List.forall_mem_cons.mpr
        ⟨fits_of_valueWithin? item taken, fits_of_memberValues? rest more⟩

end

/-! Taking what was written. -/

theorem isSome_itemValues? {room : Nat} {items : List Value}
    (each : ∀ item ∈ items, (item.tree.valueWithin? room).isSome) :
    (itemValues? room (Value.itemTrees items)).isSome := by
  induction items with
  | nil => rfl
  | cons item rest ih =>
      obtain ⟨first, others⟩ := List.forall_mem_cons.mp each
      obtain ⟨value, taken⟩ := Option.isSome_iff_exists.mp first
      obtain ⟨values, more⟩ := Option.isSome_iff_exists.mp (ih others)
      simp [Value.itemTrees, itemValues?, taken, more]

theorem isSome_memberValues? {room : Nat} {members : List (String × Value)}
    (each : ∀ member ∈ members, (member.2.tree.valueWithin? room).isSome) :
    (memberValues? room (Value.memberTrees members)).isSome := by
  induction members with
  | nil => rfl
  | cons member rest ih =>
      obtain ⟨first, others⟩ := List.forall_mem_cons.mp each
      obtain ⟨value, taken⟩ := Option.isSome_iff_exists.mp first
      obtain ⟨values, more⟩ := Option.isSome_iff_exists.mp (ih others)
      simp [Value.memberTrees, memberValues?, taken, more]

theorem isSome_valueWithin? {room : Nat} {value : Value} (fits : value.Fits room) :
    (value.tree.valueWithin? room).isSome := by
  induction fits with
  | null => rfl
  | bool truth => rfl
  | integer low high => simp [Value.tree, valueWithin?, Numeral.number?_ofInteger low high]
  | real finite =>
      obtain ⟨x, number⟩ := Numeral.isReal_ofDouble finite
      simp [Value.tree, valueWithin?, number]
  | string text => rfl
  | array each ih => simp [Value.tree, valueWithin?, isSome_itemValues? ih]
  | object each ih => simp [Value.tree, valueWithin?, isSome_memberValues? ih]

end Tree

namespace Value

theorem fits_of_parse? {text : String} {value : Value} (parsed : parse? text = some value) :
    value.Fits maxDepth := by
  obtain ⟨tree, -, taken⟩ := Option.bind_eq_some_iff.mp parsed
  exact Tree.fits_of_valueWithin? tree taken

/-- What fits can be taken again from its text. -/
theorem isSome_parse?_indentedText {value : Value} (fits : value.Fits maxDepth) :
    (parse? value.indentedText).isSome := by
  rw [parse?, parse?_indentedText fits, Option.bind_some]
  exact Tree.isSome_valueWithin? fits

/-- One member of an object may be replaced by a text. -/
theorem fits_insertSorted {room : Nat} {members : List (String × Value)}
    (fits : (object members).Fits room) (key text : String) :
    (object (Dictionary.insertSorted key (string text) members)).Fits room := by
  cases fits with
  | object each =>
      refine .object fun member inside => ?_
      rcases Dictionary.mem_insertSorted inside with rfl | old
      · exact .string text
      · exact each member old

end Value

end Json

end ArchiveRemap
