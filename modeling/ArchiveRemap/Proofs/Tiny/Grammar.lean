import ArchiveRemap.Proofs.Tiny.Step
import Mathlib.Tactic.MkIffOfInductiveProp

/-!
The grammar of Tiny text. A text is read exactly if its first line is a header and each later
line may stand where it stands; else the first line that may not is the one that is named. A
class is known as soon as there is one, so no member is ever outside of a class.
-/

namespace ArchiveRemap.Tiny

/-! What may stand where. -/

/-- A header: four columns or more, of which the first two name the format and its version. -/
def IsHeader (line : List Char) : Prop :=
  4 ≤ (line.splitOn '\t').length ∧ (line.splitOn '\t').take 2 = ["tiny".toList, ['2']]

/-- How many namespaces a header names. -/
def headerWidth (line : List Char) : Nat := (line.splitOn '\t').length - 3

/-- Names of one symbol: not more of them than namespaces, and one in the first. -/
def FitsRow (width : Nat) (names : List (List Char)) : Prop :=
  names.length ≤ width ∧ ∃ first ∈ names.head?, first ≠ []

/-- Whether a line opens a class. -/
def Line.opens (line : Line) : Bool := line.depth = 0 && line.kind = "c"

/-- The lines that may stand below a header; `opened` says whether there is a class above. -/
@[mk_iff]
inductive Line.Fits (width : Nat) (opened : Bool) : Line → Prop where
  | opens {names : List (List Char)} (fits : FitsRow width names) :
      Fits width opened ⟨0, ['c'] :: names⟩
  | property {parts : List (List Char)} (first : opened = false) : Fits width opened ⟨1, parts⟩
  | member {kind : MemberKind} {desc : List Char} {names : List (List Char)}
      (below : opened = true) (fits : FitsRow width names) :
      Fits width opened ⟨1, [kind.mark] :: desc :: names⟩
  | comment {rest : List (List Char)} (below : opened = true) :
      Fits width opened ⟨1, ['c'] :: rest⟩
  | deep {line : Line} (deep : 2 ≤ line.depth) : Fits width opened line

/-- The looks into a text fall inside of it: its tabs are cut off where they end, a line has a
first part, a header the columns that its names stand behind, and a row a first place. -/
structure InRange (lines : List (List Char)) : Prop where
  tabs : ∀ text ∈ lines, (Line.ofText text).depth ≤ text.length
  kind : ∀ text ∈ lines, 0 < (Line.ofText text).parts.length
  columns : ∀ header ∈ lines.head?, IsHeader header → 3 < (header.splitOn '\t').length
  firstName : ∀ header ∈ lines.head?, ∀ namespaces, readHeader header = .ok namespaces →
    ∀ row : Row, 0 < (row.widen namespaces.length).length

/-! Rows of names and headers. -/

/-- Something is read exactly if it fits, and what is not read is not a member outside of a
class. -/
def Decides {α : Type} (fits : Prop) (outcome : Except TinyFault α) : Prop :=
  (fits ∧ ∃ made, outcome = .ok made) ∨
    (¬ fits ∧ ∃ fault, outcome = .error fault ∧ fault ≠ .outsideClass)

section Decides

variable {α β : Type} {fits : Prop} {outcome : Except TinyFault α} {made : α} {fault : TinyFault}

theorem Decides.ok (holds : fits) (made : α) : Decides fits (.ok made) := .inl ⟨holds, made, rfl⟩

theorem Decides.error (fails : ¬ fits) (inside : fault ≠ .outsideClass) :
    Decides fits (.error fault : Except TinyFault α) := .inr ⟨fails, fault, rfl, inside⟩

/-- What follows without a fault decides nothing more. -/
theorem Decides.bind (decides : Decides fits outcome) {next : α → Except TinyFault β}
    (follows : ∀ made, ∃ after, next made = .ok after) : Decides fits (outcome >>= next) := by
  rcases decides with ⟨holds, made, rfl⟩ | ⟨fails, fault, rfl, inside⟩
  · obtain ⟨after, same⟩ := follows made
    exact .inl ⟨holds, after, same⟩
  · exact .error fails inside

end Decides

theorem length_readHeader {line : List Char} {namespaces : List String}
    (read : readHeader line = .ok namespaces) :
    namespaces.length = headerWidth line ∧ 0 < headerWidth line := by
  unfold readHeader at read
  split at read
  · rename_i format version number first rest split
    split at read
    · cases read
      rw [headerWidth, split]
      simp
    · cases read
  · cases read

/-! One line. -/

theorem Line.opens_iff {line : Line} :
    line.opens = true ↔ ∃ names, line = ⟨0, ['c'] :: names⟩ := by
  obtain ⟨depth, parts⟩ := line
  cases parts with
  | nil => simp [opens, kind]
  | cons part rest =>
      rw [opens, Bool.and_eq_true, decide_eq_true_eq, decide_eq_true_eq, kind_eq_iff]
      simp

section Stands

variable {width : Nat} {opened : Bool} {text : List Char}

theorem opens_of_blank (blank : Text.allBlank text = true) :
    (Line.ofText text).opens = false := by
  refine Bool.eq_false_iff.mpr fun opens => ?_
  obtain ⟨names, line⟩ := Line.opens_iff.mp opens
  exact absurd (Line.ink_of_mem line List.mem_cons_self (by decide)) (by simp [blank])

end Stands

namespace Reading

variable {reading after : Reading} {text : List Char}

/-- The class that members go to is there. -/
def OwnerKnown (reading : Reading) : Prop :=
  ∀ owner ∈ reading.current, (reading.tree.classes.get? owner).isSome

theorem OwnerKnown.readLine (known : reading.OwnerKnown)
    (read : reading.readLine text = .ok after) : after.OwnerKnown := by
  -- Whatever is put, the classes that are there stay.
  have put (key : String) (entry : ClassRow) {owner : String}
      (there : owner = key ∨ (reading.tree.classes.get? owner).isSome) :
      ((reading.tree.classes.put key entry).get? owner).isSome := by
    rw [Keyed.get?_put]
    split
    · rfl
    · rename_i other
      exact there.resolve_left (Ne.symm other)
  rcases readLine_cases read with ⟨-, opened⟩ | ⟨owner, kind, -, added⟩ | ⟨-, -, rfl⟩ | ⟨-, rfl⟩
  · obtain ⟨row, -, rfl⟩ := openClass_eq_ok opened
    rintro owner ⟨⟩
    exact put _ _ (.inl rfl)
  · obtain ⟨mark, desc, names, row, entry, -, -, -, rfl⟩ := addMember_eq_ok added
    exact fun owner current => put _ _ (.inr (known owner current))
  · exact known
  · exact known

end Reading

/-! All lines. -/

/-- What comes of lines that are looked at one by one, the first with this number: all of them
are lawful and something is made of them, or the first that is not is named. -/
def Blames {α : Type} (number : Nat) (lawful : Nat → Prop)
    (outcome : Except (Nat × TinyFault) α) : Prop :=
  ((∀ index, lawful index) ∧ ∃ made, outcome = .ok made) ∨
    ∃ index fault, ¬ lawful index ∧ (∀ earlier < index, lawful earlier) ∧
      outcome = .error (number + index, fault) ∧ fault ≠ .outsideClass

section Blames

variable {α : Type} {number : Nat} {lawful : Nat → Prop} {outcome : Except (Nat × TinyFault) α}

theorem Blames.first {fault : TinyFault} (broken : ¬ lawful 0) (inside : fault ≠ .outsideClass) :
    Blames number lawful (.error (number, fault) : Except (Nat × TinyFault) α) :=
  .inr ⟨0, fault, broken, by simp, rfl, inside⟩

theorem Blames.later (first : lawful 0)
    (rest : Blames (number + 1) (fun index => lawful (index + 1)) outcome) :
    Blames number lawful outcome := by
  rcases rest with ⟨all, made⟩ | ⟨index, fault, broken, before, failed, inside⟩
  · refine .inl ⟨fun index => ?_, made⟩
    cases index with
    | zero => exact first
    | succ index => exact all index
  · refine .inr ⟨index + 1, fault, broken, fun earlier small => ?_, ?_, inside⟩
    · cases earlier with
      | zero => exact first
      | succ earlier => exact before earlier (by omega)
    · rw [failed]
      congr 2
      omega

theorem Blames.map {β : Type} (blames : Blames number lawful outcome) (change : α → β) :
    Blames number lawful (outcome.map change) := by
  rcases blames with ⟨all, made, rfl⟩ | ⟨index, fault, broken, before, rfl, inside⟩
  · exact .inl ⟨all, change made, rfl⟩
  · exact .inr ⟨index, fault, broken, before, rfl, inside⟩

end Blames

section StandsAt

variable {width : Nat} {opened : Bool} {text : List Char} {rest : List (List Char)}

end StandsAt

end ArchiveRemap.Tiny
