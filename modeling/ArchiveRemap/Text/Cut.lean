/-!
Cutting text at a mark. A cut keeps both sides and drops the mark, so writing the
mark between the sides gives the text back.
-/

namespace ArchiveRemap.Text

/-- The text before and after the first `mark`. -/
def cut (mark : Char) : List Char → Option (List Char × List Char)
  | [] => none
  | c :: rest =>
      if c = mark then some ([], rest)
      else (cut mark rest).map fun (before, after) => (c :: before, after)

/-- The text before and after the last `mark`. -/
def cutLast (mark : Char) (text : List Char) : Option (List Char × List Char) :=
  (cut mark text.reverse).map fun (after, before) => (before.reverse, after.reverse)

def trimStart (drop : Char → Bool) (text : List Char) : List Char :=
  text.dropWhile drop

def trimEnd (drop : Char → Bool) (text : List Char) : List Char :=
  (text.reverse.dropWhile drop).reverse

def trim (drop : Char → Bool) (text : List Char) : List Char :=
  trimEnd drop (trimStart drop text)

/-- What follows `head` in a text that starts with it. -/
def dropHead? : List Char → List Char → Option (List Char)
  | [], text => some text
  | _ :: _, [] => none
  | h :: head, c :: text => if h = c then dropHead? head text else none

/-- What comes before `tail` in a text that ends with it. -/
def dropTail? (tail text : List Char) : Option (List Char) :=
  (dropHead? tail.reverse text.reverse).map List.reverse

def startsWith (head text : List Char) : Bool := (dropHead? head text).isSome

def endsWith (tail text : List Char) : Bool := (dropTail? tail text).isSome

/-- Whether `part` occurs somewhere in the text. -/
def holds (part : List Char) : List Char → Bool
  | [] => part.isEmpty
  | c :: rest => startsWith part (c :: rest) || holds part rest

/-- The text before the first occurrence of `part`, or all of it. -/
def before (part : List Char) : List Char → List Char
  | [] => []
  | c :: rest => if startsWith part (c :: rest) then [] else c :: before part rest

/-- Every `old` becomes `new`. -/
def swap (old new : Char) (text : List Char) : List Char :=
  text.map fun c => if c = old then new else c

/-! What a cut says about the text. -/

theorem eq_of_cut {mark : Char} {text before after : List Char}
    (found : cut mark text = some (before, after)) :
    text = before ++ mark :: after := by
  induction text generalizing before with
  | nil => simp [cut] at found
  | cons c rest ih =>
      by_cases hit : c = mark
      · simp only [cut, hit, if_true, Option.some.injEq, Prod.mk.injEq] at found
        obtain ⟨rfl, rfl⟩ := found
        simp [hit]
      · simp only [cut, hit, if_false, Option.map_eq_some_iff, Prod.exists] at found
        obtain ⟨head, tail, inner, same⟩ := found
        cases same
        simp [ih inner]

theorem not_mem_of_cut {mark : Char} {text before after : List Char}
    (found : cut mark text = some (before, after)) : mark ∉ before := by
  induction text generalizing before with
  | nil => simp [cut] at found
  | cons c rest ih =>
      by_cases hit : c = mark
      · simp only [cut, hit, if_true, Option.some.injEq, Prod.mk.injEq] at found
        obtain ⟨rfl, rfl⟩ := found
        simp
      · simp only [cut, hit, if_false, Option.map_eq_some_iff, Prod.exists] at found
        obtain ⟨head, tail, inner, same⟩ := found
        cases same
        simp [ih inner, Ne.symm hit]

theorem cut_eq_none_iff {mark : Char} {text : List Char} :
    cut mark text = none ↔ mark ∉ text := by
  induction text with
  | nil => simp [cut]
  | cons c rest ih =>
      by_cases hit : c = mark
      · simp [cut, hit]
      · simp [cut, hit, ih, Ne.symm hit]

theorem cut_append {mark : Char} {before after : List Char} (free : mark ∉ before) :
    cut mark (before ++ mark :: after) = some (before, after) := by
  induction before with
  | nil => simp [cut]
  | cons c rest ih =>
      simp only [List.mem_cons, not_or] at free
      simp [cut, Ne.symm free.1, ih free.2]

theorem length_of_cut {mark : Char} {text before after : List Char}
    (found : cut mark text = some (before, after)) : after.length < text.length := by
  rw [eq_of_cut found]
  simp
  omega

/-! What a text without its head or its tail says about the text. -/

theorem dropHead?_eq_some_iff {head text rest : List Char} :
    dropHead? head text = some rest ↔ text = head ++ rest := by
  induction head generalizing text with
  | nil => simp [dropHead?]
  | cons h head ih =>
      cases text with
      | nil => simp [dropHead?]
      | cons c text =>
          by_cases hit : h = c
          · simp [dropHead?, hit, ih]
          · simp [dropHead?, hit, Ne.symm hit]

theorem dropTail?_eq_some_iff {tail text front : List Char} :
    dropTail? tail text = some front ↔ text = front ++ tail := by
  rw [dropTail?, Option.map_eq_some_iff]
  constructor
  · rintro ⟨rest, found, rfl⟩
    rw [dropHead?_eq_some_iff] at found
    rw [← List.reverse_reverse text, found]
    simp
  · rintro rfl
    exact ⟨front.reverse, dropHead?_eq_some_iff.mpr (by simp), List.reverse_reverse front⟩

theorem endsWith_iff {tail text : List Char} :
    endsWith tail text = true ↔ ∃ front, text = front ++ tail := by
  simp only [endsWith, Option.isSome_iff_exists, dropTail?_eq_some_iff]

end ArchiveRemap.Text
