import ArchiveRemap.Tiny.Reader
import Mathlib.Data.List.Basic

/-!
Lines of a text and parts of a line. Lines that were ended one by one are read again, and so are
parts that were separated, but a carriage return at the end of a line is taken for a part of
its end.
-/

namespace ArchiveRemap

open Tiny

/-! Lines of a text. -/

namespace Text

theorem dropReturn_append {before : List Char} (kept : before.getLast? ≠ some '\r')
    (text : List Char) : dropReturn (before ++ text) = before ++ dropReturn text := by
  cases text with
  | nil => simp [dropReturn, kept]
  | cons c rest =>
      have last : (before ++ c :: rest).getLast? = (c :: rest).getLast? :=
        List.getLast?_append_of_ne_nil _ (List.cons_ne_nil c rest)
      rw [dropReturn, dropReturn, last, List.dropLast_append_of_ne_nil (List.cons_ne_nil c rest)]
      split <;> rfl

theorem dropReturn_subset (text : List Char) : dropReturn text ⊆ text := by
  rw [dropReturn]
  split
  · exact List.dropLast_subset text
  · exact List.Subset.refl text

theorem lines_of_cut {text line rest : List Char} (found : cut '\n' text = some (line, rest)) :
    lines text = dropReturn line :: lines rest := by
  rw [lines]
  split
  · rename_i other
    cases found.symm.trans other
    rfl
  · rename_i missed
    cases found.symm.trans missed

theorem lines_of_uncut {text : List Char} (missed : cut '\n' text = none) :
    lines text = if text.isEmpty then [] else [text] := by
  rw [lines]
  split
  · rename_i found
    cases missed.symm.trans found
  · rfl

theorem lines_nil : lines [] = [] := lines_of_uncut rfl

theorem lines_cons {line : List Char} (plain : '\n' ∉ line) (rest : List Char) :
    lines (line ++ '\n' :: rest) = dropReturn line :: lines rest :=
  lines_of_cut (cut_append plain)

/-- The lines of a text are those that it was made of, but for returns before their ends. -/
theorem lines_flatMap {printed : List (List Char)} (plain : ∀ line ∈ printed, '\n' ∉ line) :
    lines (printed.flatMap fun line => line ++ ['\n']) = printed.map dropReturn := by
  induction printed with
  | nil => exact lines_nil
  | cons line rest ih =>
      obtain ⟨first, later⟩ := List.forall_mem_cons.mp plain
      rw [List.flatMap_cons, List.append_assoc, List.singleton_append, lines_cons first, ih later,
        List.map_cons]

/-- A line has no line feed in it. -/
theorem not_mem_of_mem_lines {text line : List Char} (member : line ∈ lines text) :
    '\n' ∉ line := by
  induction text using lines.induct with
  | case1 text first rest found ih =>
      rw [lines_of_cut found] at member
      rcases List.mem_cons.mp member with rfl | later
      · exact fun inside => not_mem_of_cut found (dropReturn_subset first inside)
      · exact ih later
  | case2 text missed empty =>
      rw [lines_of_uncut missed, if_pos empty] at member
      cases member
  | case3 text missed filled =>
      rw [lines_of_uncut missed, if_neg filled] at member
      rw [List.mem_singleton.mp member]
      exact cut_eq_none_iff.mp missed

/-- Where a text starts with a character that ends no line, so does its first line. -/
theorem lines_of_head {c : Char} (feed : c ≠ '\n') (back : c ≠ '\r') (rest : List Char) :
    ∃ line more, lines (c :: rest) = (c :: line) :: more := by
  have kept : [c].getLast? ≠ some '\r' := by simpa using back
  cases found : cut '\n' rest with
  | none =>
      have first : cut '\n' (c :: rest) = none := by rw [cut, if_neg feed, found, Option.map_none]
      exact ⟨rest, [], lines_of_uncut first⟩
  | some sides =>
      have first : cut '\n' (c :: rest) = some (c :: sides.1, sides.2) := by
        rw [cut, if_neg feed, found, Option.map_some]
      exact ⟨dropReturn sides.1, lines sides.2,
        (lines_of_cut first).trans (congrArg (· :: _) (dropReturn_append kept sides.1))⟩

/-- A text that a part of a line can be. -/
def Plain (text : String) : Prop := '\t' ∉ text.toList ∧ '\n' ∉ text.toList

instance (text : String) : Decidable (Plain text) := inferInstanceAs (Decidable (_ ∧ _))

/-- A text that the last part of a line can be. -/
def Closing (text : String) : Prop := Plain text ∧ text.toList.getLast? ≠ some '\r'

instance (text : String) : Decidable (Closing text) := inferInstanceAs (Decidable (_ ∧ _))

/-- What is left of a text at the end of a line. -/
def worn (text : String) : String := String.ofList (dropReturn text.toList)

theorem worn_eq_iff {text : String} : worn text = text ↔ text.toList.getLast? ≠ some '\r' := by
  rw [worn, ← String.toList_inj, String.toList_ofList, dropReturn]
  split
  · rename_i back
    have whole := List.dropLast_append_getLast? _ back
    refine iff_of_false (fun same => ?_) fun kept => kept back
    rw [same] at whole
    exact absurd whole (by simp)
  · rename_i other
    simp [other]

/-! Parts of a line. -/

section Marks

variable {mark : Char} {parts : List (List Char)}

theorem mem_splitOnP {stop : Char → Bool} {text part : List Char}
    (member : part ∈ text.splitOnP stop) : (∀ c ∈ part, stop c = false) ∧ part ⊆ text := by
  induction text generalizing part with
  | nil =>
      rw [List.splitOnP_nil, List.mem_singleton] at member
      simp [member]
  | cons c rest ih =>
      rw [List.splitOnP_cons_eq_if_modifyHead] at member
      split at member
      · rcases List.mem_cons.mp member with rfl | later
        · simp
        · exact (ih later).imp_right (List.subset_cons_of_subset c)
      · rename_i other
        cases split : rest.splitOnP stop with
        | nil => exact absurd split (List.splitOnP_ne_nil stop rest)
        | cons first more =>
            rw [split, List.modifyHead_cons] at member
            rcases List.mem_cons.mp member with rfl | later
            · have inside := ih (split ▸ List.mem_cons_self)
              exact ⟨List.forall_mem_cons.mpr ⟨by simpa using other, inside.1⟩,
                List.cons_subset_cons c inside.2⟩
            · exact (ih (split ▸ List.mem_cons_of_mem _ later)).imp_right
                (List.subset_cons_of_subset c)

theorem mem_splitOn {mark : Char} {text part : List Char} (member : part ∈ text.splitOn mark) :
    mark ∉ part ∧ part ⊆ text := by
  obtain ⟨apart, inside⟩ := @mem_splitOnP (· == mark) text part member
  exact ⟨fun there => absurd (apart mark there) (by simp), inside⟩

theorem mem_intercalate {c : Char} (member : c ∈ [mark].intercalate parts) :
    c = mark ∨ ∃ part ∈ parts, c ∈ part := by
  induction parts with
  | nil => cases member
  | cons part rest ih =>
      cases rest with
      | nil =>
          rw [List.intercalate_singleton] at member
          exact .inr ⟨part, List.mem_cons_self, member⟩
      | cons next more =>
          rw [List.intercalate_cons_cons, List.mem_append, List.mem_append,
            List.mem_singleton] at member
          rcases member with (inside | same) | later
          · exact .inr ⟨part, List.mem_cons_self, inside⟩
          · exact .inl same
          · exact (ih later).imp_right fun ⟨other, there, inside⟩ => ⟨other, .tail _ there, inside⟩

theorem intercalate_concat (there : parts ≠ []) (last : List Char) :
    [mark].intercalate (parts ++ [last]) = [mark].intercalate parts ++ mark :: last := by
  induction parts with
  | nil => exact absurd rfl there
  | cons part rest ih =>
      cases rest with
      | nil => simp [List.intercalate_cons_cons]
      | cons next more =>
          rw [List.cons_append, List.cons_append, List.intercalate_cons_cons, ← List.cons_append,
            ih (List.cons_ne_nil _ _), List.intercalate_cons_cons, List.append_assoc,
            List.append_assoc, List.append_assoc]

end Marks

end Text

namespace Tiny.Line

/-- A line as it is printed. -/
def chars (line : Line) : List Char :=
  List.replicate line.depth '\t' ++ ['\t'].intercalate line.parts

variable {depth : Nat} {c : Char} {rest : List (List Char)} {last : List Char}

theorem feed_not_mem_chars {line : Line} (plain : ∀ part ∈ line.parts, '\n' ∉ part) :
    '\n' ∉ line.chars := by
  intro member
  rcases List.mem_append.mp member with tabs | parts
  · exact absurd (List.eq_of_mem_replicate tabs) (by decide)
  · rcases Text.mem_intercalate parts with same | ⟨part, there, inside⟩
    · exact absurd same (by decide)
    · exact plain part there inside

/-- Only the last part of a line can lose a return. -/
theorem dropReturn_chars {parts : List (List Char)} (there : parts ≠ []) :
    Text.dropReturn (chars ⟨depth, parts ++ [last]⟩) =
      chars ⟨depth, parts ++ [Text.dropReturn last]⟩ := by
  have split (text : List Char) : chars ⟨depth, parts ++ [text]⟩ =
      (List.replicate depth '\t' ++ ['\t'].intercalate parts ++ ['\t']) ++ text := by
    rw [chars, Text.intercalate_concat there, List.append_assoc, List.append_assoc,
      List.singleton_append]
  rw [split, split, Text.dropReturn_append]
  rw [List.getLast?_concat]
  decide

/-- The parts of a line are read back from it. -/
theorem ofText_chars {first : List Char} (plain : ∀ part ∈ (c :: first) :: rest, '\t' ∉ part) :
    Line.ofText (chars ⟨depth, (c :: first) :: rest⟩) = ⟨depth, (c :: first) :: rest⟩ := by
  obtain ⟨tail, start⟩ : ∃ tail, ['\t'].intercalate ((c :: first) :: rest) = c :: tail := by
    cases rest with
    | nil => exact ⟨first, List.intercalate_singleton⟩
    | cons next more => exact ⟨_, List.intercalate_cons_cons⟩
  have mark : ¬decide (c = '\t') = true := fun same =>
    plain _ List.mem_cons_self (of_decide_eq_true same ▸ List.mem_cons_self)
  have tabs : ∀ a ∈ List.replicate depth '\t', decide (a = '\t') = true := fun a member =>
    decide_eq_true (List.eq_of_mem_replicate member)
  have split := List.splitOn_intercalate '\t' plain (List.cons_ne_nil _ _)
  rw [start] at split
  rw [chars, start, Line.ofText, List.takeWhile_append_of_pos tabs,
    List.dropWhile_append_of_pos tabs, List.takeWhile_cons, if_neg mark, List.dropWhile_cons,
    if_neg mark, split, List.append_nil, List.length_replicate]

/-- A printed line is read as its parts, the last one without a return. -/
theorem ofText_printed (depth : Nat) (plain : ∀ part ∈ [c] :: rest, '\t' ∉ part)
    (closing : '\t' ∉ last) :
    Line.ofText (Text.dropReturn (chars ⟨depth, [c] :: rest ++ [last]⟩)) =
      ⟨depth, [c] :: rest ++ [Text.dropReturn last]⟩ := by
  rw [dropReturn_chars (List.cons_ne_nil _ _), List.cons_append]
  refine ofText_chars fun part member => ?_
  rw [← List.cons_append, List.mem_append] at member
  rcases member with before | same
  · exact plain part before
  · rw [List.mem_singleton.mp same]
    exact fun inside => closing (Text.dropReturn_subset last inside)

theorem allBlank_printed (depth : Nat) (rest : List (List Char)) (last : List Char)
    (ink : Text.isBlank c = false) :
    Text.allBlank (Text.dropReturn (chars ⟨depth, [c] :: rest ++ [last]⟩)) = false := by
  rw [dropReturn_chars (List.cons_ne_nil _ _), Text.allBlank, List.all_eq_false]
  refine ⟨c, ?_, by simp [ink]⟩
  rw [chars, Text.intercalate_concat (List.cons_ne_nil _ _)]
  cases rest <;> simp [List.intercalate_cons_cons]

end Tiny.Line

end ArchiveRemap
