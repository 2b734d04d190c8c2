import ArchiveRemap.Json.Reader

/-!
Number tokens as text. A legal token is written from its parts and read back into them,
whatever stops it.
-/

namespace ArchiveRemap.Json

/-- One or more digits. -/
def AreDigits (digits : List Char) : Prop := digits ≠ [] ∧ ∀ c ∈ digits, c.isDigit = true

/-- What may follow a number token: nothing that could go on with it. -/
def Stops (rest : List Char) : Prop :=
  ∀ c ∈ rest.head?, c.isDigit = false ∧ c ≠ '.' ∧ c ≠ 'e' ∧ c ≠ 'E'

namespace Numeral

def writeFraction : Option (List Char) → List Char
  | some digits => '.' :: digits
  | none => []

def writeExponent : Option (Bool × List Char) → List Char
  | some (down, digits) => 'e' :: ((if down then ['-'] else []) ++ digits)
  | none => []

/-- The text of a token. -/
def write (numeral : Numeral) : List Char :=
  (if numeral.negative then ['-'] else []) ++ numeral.whole ++
    writeFraction numeral.fraction ++ writeExponent numeral.exponent

structure Legal (numeral : Numeral) : Prop where
  whole : AreDigits numeral.whole
  leading : numeral.whole.head? = some '0' → numeral.whole = ['0']
  fraction : ∀ digits ∈ numeral.fraction, AreDigits digits
  exponent : ∀ written ∈ numeral.exponent, AreDigits written.2

end Numeral

theorem takeDigits_append {digits rest : List Char} (are : ∀ c ∈ digits, c.isDigit = true)
    (stops : ∀ c ∈ rest.head?, c.isDigit = false) :
    takeDigits (digits ++ rest) = (digits, rest) := by
  have taken : rest.takeWhile Char.isDigit = [] ∧ rest.dropWhile Char.isDigit = rest := by
    cases rest with
    | nil => exact ⟨rfl, rfl⟩
    | cons c more =>
        have stop := stops c rfl
        exact ⟨List.takeWhile_cons_of_neg (by simp [stop]),
          List.dropWhile_cons_of_neg (by simp [stop])⟩
  rw [takeDigits, List.takeWhile_append_of_pos are, List.dropWhile_append_of_pos are, taken.1,
    taken.2, List.append_nil]

theorem someDigits?_append {digits rest : List Char} (are : AreDigits digits)
    (stops : ∀ c ∈ rest.head?, c.isDigit = false) :
    someDigits? (digits ++ rest) = some (digits, rest) := by
  rw [someDigits?, takeDigits_append are.2 stops]
  obtain ⟨c, more, rfl⟩ := List.exists_cons_of_ne_nil are.1
  rfl

theorem wholeDigits?_append {digits rest : List Char} (are : AreDigits digits)
    (leading : digits.head? = some '0' → digits = ['0'])
    (stops : ∀ c ∈ rest.head?, c.isDigit = false) :
    wholeDigits? (digits ++ rest) = some (digits, rest) := by
  rw [wholeDigits?, someDigits?_append are stops]
  split
  · rename_i again
    cases again
    cases leading rfl
  · rfl

theorem readFraction?_append {fraction : Option (List Char)} {rest : List Char}
    (are : ∀ digits ∈ fraction, AreDigits digits)
    (stops : ∀ c ∈ rest.head?, c.isDigit = false ∧ c ≠ '.') :
    readFraction? (Numeral.writeFraction fraction ++ rest) = some (fraction, rest) := by
  cases fraction with
  | some digits =>
      rw [Numeral.writeFraction, List.cons_append, readFraction?,
        someDigits?_append (are digits rfl) fun c first => (stops c first).1]
      rfl
  | none =>
      rw [Numeral.writeFraction, List.nil_append]
      cases rest with
      | nil => rfl
      | cons c more =>
          have other := (stops c rfl).2
          rw [readFraction?]
          simpa using other

/-- An exponent without a sign starts with a digit. -/
theorem readExponent?_unsigned {digits : List Char} (are : AreDigits digits)
    (rest : List Char) :
    readExponent? ('e' :: (digits ++ rest)) =
      (someDigits? (digits ++ rest)).map fun (digits, rest) => (some (false, digits), rest) := by
  obtain ⟨c, more, rfl⟩ := List.exists_cons_of_ne_nil are.1
  have digit := are.2 c List.mem_cons_self
  unfold readExponent?
  rw [List.cons_append]
  dsimp only
  rw [if_pos (by simp)]
  split
  · rename_i plus
    cases plus
    cases digit
  · rename_i minus
    cases minus
    cases digit
  · rfl

theorem readExponent?_append {exponent : Option (Bool × List Char)} {rest : List Char}
    (are : ∀ written ∈ exponent, AreDigits written.2) (stops : Stops rest) :
    readExponent? (Numeral.writeExponent exponent ++ rest) = some (exponent, rest) := by
  cases exponent with
  | some written =>
      obtain ⟨down, digits⟩ := written
      have read := someDigits?_append (are _ rfl) fun c first => (stops c first).1
      cases down with
      | true => simp [Numeral.writeExponent, readExponent?, read]
      | false =>
          have unsigned : Numeral.writeExponent (some (false, digits)) ++ rest =
              'e' :: (digits ++ rest) := by
            simp [Numeral.writeExponent]
          rw [unsigned, readExponent?_unsigned (are _ rfl), read]
          rfl
  | none =>
      rw [Numeral.writeExponent, List.nil_append]
      cases rest with
      | nil => rfl
      | cons c more =>
          obtain ⟨-, -, small, large⟩ := stops c rfl
          unfold readExponent?
          dsimp only
          rw [if_neg (by simp [small, large])]

theorem stops_writeExponent (exponent : Option (Bool × List Char)) {rest : List Char}
    (stops : Stops rest) :
    ∀ c ∈ (Numeral.writeExponent exponent ++ rest).head?, c.isDigit = false ∧ c ≠ '.' := by
  cases exponent with
  | some written =>
      rintro c (rfl | _)
      exact ⟨rfl, by decide⟩
  | none => exact fun c first => ⟨(stops c first).1, (stops c first).2.1⟩

theorem stops_writeFraction (fraction : Option (List Char)) {rest : List Char}
    (stops : ∀ c ∈ rest.head?, c.isDigit = false) :
    ∀ c ∈ (Numeral.writeFraction fraction ++ rest).head?, c.isDigit = false := by
  cases fraction with
  | some digits =>
      rintro c (rfl | _)
      rfl
  | none => exact stops

/-- A legal token is read back. -/
theorem readNumeral?_append {numeral : Numeral} {rest : List Char} (legal : numeral.Legal)
    (stops : Stops rest) : readNumeral? (numeral.write ++ rest) = some (numeral, rest) := by
  obtain ⟨negative, whole, fraction, exponent⟩ := numeral
  have exponentStops := stops_writeExponent exponent stops
  have read := wholeDigits?_append legal.whole legal.leading
    (stops_writeFraction fraction fun c first => (exponentStops c first).1)
  have others := readFraction?_append legal.fraction exponentStops
  have last := readExponent?_append legal.exponent stops
  dsimp only at read others last
  cases negative with
  | true =>
      simp only [Numeral.write, if_true, List.append_assoc, List.cons_append, List.nil_append,
        readNumeral?, read, others, last, bind, Option.bind]
  | false =>
      obtain ⟨c, more, rfl⟩ := List.exists_cons_of_ne_nil legal.whole.1
      have digit := legal.whole.2 c List.mem_cons_self
      have unsigned : c ≠ '-' := by
        rintro rfl
        cases digit
      simp only [Numeral.write, List.append_assoc, List.cons_append, List.nil_append,
        Bool.false_eq_true, if_false] at read ⊢
      unfold readNumeral?
      split
      rename_i sign text cut
      split at cut
      · rename_i same
        exact absurd (List.cons.inj same).1 unsigned
      · cases cut
        simp only [read, others, last, bind, Option.bind]

end ArchiveRemap.Json
