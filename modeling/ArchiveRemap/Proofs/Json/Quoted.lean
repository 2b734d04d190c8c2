import ArchiveRemap.Json.Reader

/-!
Strings inside quotes. Every character is written as itself or as an escape that names it, so
what is written is read back up to the closing quote. A unit written in hexadecimal is read
together with a unit behind it, which is why the character after it matters.
-/

namespace ArchiveRemap.Json

theorem readQuoted?_quote (rest : List Char) :
    readQuoted? ('"' :: rest) = some (some [], rest) := by
  rw [readQuoted?]

theorem readQuoted?_plain {c : Char} (printed : ¬ c.toNat < 32) (noQuote : c ≠ '"')
    (noEscape : c ≠ '\\') (rest : List Char) :
    readQuoted? (c :: rest) = consRead (some c) (readQuoted? rest) := by
  rw [readQuoted?]
  · simp [printed, noEscape]
  all_goals simp_all

theorem readQuoted?_short {mark c : Char} (found : plainEscape? mark = some c)
    (rest : List Char) :
    readQuoted? ('\\' :: mark :: rest) = consRead (some c) (readQuoted? rest) := by
  have other : mark ≠ 'u' := by
    rintro rfl
    cases found
  rw [readQuoted?]
  · simp [found]
  all_goals simp_all

theorem readQuoted?_unit {a b c d : Char} {unit : Nat} (found : unit? a b c d = some unit)
    (whole : isHighHalf unit = false ∧ isLowHalf unit = false) {rest : List Char}
    (legal : ∀ e f g h more, rest = '\\' :: 'u' :: e :: f :: g :: h :: more →
      (unit? e f g h).isSome) :
    readQuoted? ('\\' :: 'u' :: a :: b :: c :: d :: rest) =
      consRead (some (Char.ofNat unit)) (readQuoted? rest) := by
  by_cases pair : ∃ e f g h more, rest = '\\' :: 'u' :: e :: f :: g :: h :: more
  · obtain ⟨e, f, g, h, more, rfl⟩ := pair
    obtain ⟨low, second⟩ := Option.isSome_iff_exists.mp (legal e f g h more rfl)
    rw [readQuoted?]
    simp [found, second, whole]
  · rw [readQuoted?]
    · simp [found, whole]
    · intro e f g h more same
      exact pair ⟨e, f, g, h, more, same⟩

/-- The hexadecimal digits of a number below 16. -/
theorem hexValue?_hexDigit : ∀ n < 16, Text.hexValue? (hexDigit n) = some n := by decide

theorem unit?_escape {c : Char} (small : c.toNat < 32) :
    unit? '0' '0' (hexDigit (c.toNat / 16)) (hexDigit (c.toNat % 16)) = some c.toNat := by
  have high := hexValue?_hexDigit (c.toNat / 16) (by omega)
  have low := hexValue?_hexDigit (c.toNat % 16) (by omega)
  have zero : Text.hexValue? '0' = some 0 := by decide
  simp [unit?, Text.hexNumber?, List.foldlM, zero, high, low]
  omega

inductive Escaped (c : Char) : List Char → Prop where
  | short {mark : Char} (found : plainEscape? mark = some c) : Escaped c ['\\', mark]
  | unit (small : c.toNat < 32) :
      Escaped c ['\\', 'u', '0', '0', hexDigit (c.toNat / 16), hexDigit (c.toNat % 16)]
  | plain (printed : ¬ c.toNat < 32) (noQuote : c ≠ '"') (noEscape : c ≠ '\\') : Escaped c [c]

theorem escaped_escape (c : Char) : Escaped c (escape c) := by
  unfold escape
  split
  case h_8 =>
    split
    · exact .unit ‹_›
    · exact .plain ‹_› ‹_› ‹_›
  all_goals exact .short rfl

/-- A unit that follows another one in a written text is written in full. -/
theorem legal_of_escaped (text rest : List Char) {e f g h : Char} {more : List Char}
    (next : text.flatMap escape ++ '"' :: rest = '\\' :: 'u' :: e :: f :: g :: h :: more) :
    (unit? e f g h).isSome := by
  cases text with
  | nil => cases next
  | cons c tail =>
      rw [List.flatMap_cons, List.append_assoc] at next
      have written := escaped_escape c
      generalize escape c = image at written next
      cases written with
      | short found =>
          obtain ⟨rfl, -⟩ := List.cons.inj (List.cons.inj next).2
          cases found
      | unit small =>
          simp only [List.cons_append, List.nil_append, List.cons.injEq] at next
          obtain ⟨-, -, rfl, rfl, rfl, rfl, -⟩ := next
          exact Option.isSome_of_eq_some (unit?_escape small)
      | plain printed noQuote noEscape =>
          exact absurd (List.cons.inj next).1 noEscape

/-- A written text is read back up to its closing quote. -/
theorem readQuoted?_escaped (text rest : List Char) :
    readQuoted? (text.flatMap escape ++ '"' :: rest) = some (some text, rest) := by
  induction text with
  | nil => exact readQuoted?_quote rest
  | cons c tail ih =>
      rw [List.flatMap_cons, List.append_assoc]
      have written := escaped_escape c
      generalize escape c = image at written ⊢
      cases written with
      | short found =>
          rw [List.cons_append, List.cons_append, readQuoted?_short found, List.nil_append, ih]
          rfl
      | unit small =>
          have whole : isHighHalf c.toNat = false ∧ isLowHalf c.toNat = false := by
            simp [isHighHalf, isLowHalf]
            omega
          simp only [List.cons_append, List.nil_append]
          rw [readQuoted?_unit (unit?_escape small) whole
            (fun e f g h more => legal_of_escaped tail rest), ih, Char.ofNat_toNat]
          rfl
      | plain printed noQuote noEscape =>
          rw [List.cons_append, readQuoted?_plain printed noQuote noEscape, List.nil_append, ih]
          rfl

theorem readString?_escaped (text : String) (rest : List Char) :
    readString? (text.toList.flatMap escape ++ '"' :: rest) = some (some text, rest) := by
  rw [readString?, readQuoted?_escaped]
  simp

end ArchiveRemap.Json
