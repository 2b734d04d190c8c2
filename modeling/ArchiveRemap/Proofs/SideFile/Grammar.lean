import Mathlib.Data.List.Forall2
import ArchiveRemap.Proofs.SideFile.Entry

/-!
Access wideners against their grammar. Behind its header an access widener holds entries, one a
line, and lines without words. Whether a line is an entry has nothing to do with the table, so a
file that one hop takes is refused by another only for its header. A file with the right header
is refused for the first line that is no entry, by its number.
-/

namespace ArchiveRemap

/-- What the one side of related lists says about the other. -/
theorem forall_right_of_forall₂ {α β : Type} {related : α → β → Prop} {property : β → Prop}
    {left : List α} {right : List β} (all : List.Forall₂ related left right)
    (gives : ∀ a ∈ left, ∀ b, related a b → property b) : ∀ b ∈ right, property b := by
  induction all with
  | nil => nofun
  | cons here below ih =>
      obtain ⟨first, later⟩ := List.forall_mem_cons.mp gives
      exact List.forall_mem_cons.mpr ⟨first _ here, ih later⟩

namespace Widener

variable {renamer : Renamer}

/-! Entries. -/

def accessWords : List String :=
  ["accessible", "extendable", "mutable", "transitive-accessible", "transitive-extendable",
    "transitive-mutable"]

theorem isAccess_iff {word : String} : isAccess word = true ↔ word ∈ accessWords := by
  constructor
  · intro known
    simp only [isAccess, Bool.or_eq_true, decide_eq_true_eq] at known
    cases found : Text.dropHead? "transitive-".toList word.toList with
    | none =>
        rw [found, Option.getD_none, String.toList_inj, String.toList_inj, String.toList_inj]
          at known
        rcases known with (rfl | rfl) | rfl <;> decide
    | some bare =>
        rw [found, Option.getD_some] at known
        have spelled : word = "transitive-" ++ String.ofList bare := by
          rw [← String.toList_inj, String.toList_append, Text.dropHead?_eq_some_iff.mp found]
          exact congrArg _ String.toList_ofList.symm
        rw [spelled]
        rcases known with (rfl | rfl) | rfl <;> decide
  · intro listed
    have all : ∀ word ∈ accessWords, isAccess word = true := by decide
    exact all word listed

/-- The words of an entry: an access, and a class or a member. -/
inductive EntryForm : List String → Prop where
  | ofClass {access : String} (known : access ∈ accessWords) (name : String) :
      EntryForm [access, "class", name]
  | ofMember {access : String} (known : access ∈ accessWords) (kind : MemberKind)
      (owner name desc : String) : EntryForm [access, kind.widenerWord, owner, name, desc]

/-- The words of a form in the target namespace. -/
theorem renameEntryWords_class {access : String} (known : access ∈ accessWords) (name : String) :
    renameEntryWords renamer [access, "class", name] =
      .ok [access, "class", renamer.mapClass name] := by
  rw [renameEntryWords, isAccess_iff.mpr known]
  rfl

theorem renameEntryWords_member {access : String} (known : access ∈ accessWords)
    (kind : MemberKind) (owner name desc : String) :
    renameEntryWords renamer [access, kind.widenerWord, owner, name, desc] =
      .ok [access, kind.widenerWord, renamer.mapClass owner,
        renamer.mapMember kind owner name desc, renamer.mapDesc desc] := by
  have passed := isAccess_iff.mpr known
  cases kind <;>
    simp only [renameEntryWords, MemberKind.widenerWord, passed, Bool.not_true, Bool.false_eq_true,
      if_false]

/-- Exactly the words of an entry are renamed, whatever the table is. -/
theorem renameEntryWords_ok_iff {words : List String} :
    (∃ renamed, renameEntryWords renamer words = .ok renamed) ↔ EntryForm words := by
  constructor
  · rintro ⟨renamed, entry⟩
    unfold renameEntryWords at entry
    split at entry
    · cases entry
    · rename_i access rest
      cases known : isAccess access with
      | false => simp [known] at entry
      | true =>
          simp only [known, Bool.not_true, Bool.false_eq_true, if_false] at entry
          split at entry
          · exact .ofClass (isAccess_iff.mp known) _
          · exact .ofMember (isAccess_iff.mp known) .method _ _ _
          · exact .ofMember (isAccess_iff.mp known) .field _ _ _
          · cases entry
  · rintro (⟨known, name⟩ | ⟨known, kind, owner, name, desc⟩)
    · exact ⟨_, renameEntryWords_class known name⟩
    · exact ⟨_, renameEntryWords_member known kind owner name desc⟩

/-! Lines behind the header. -/

/-- A line without words, or one with the words of an entry. -/
def IsEntryLine (line : List Char) : Prop :=
  (lineParts line).1 = [] ∨ EntryForm (lineParts line).1

/-- What a line becomes. -/
def entryLine (renamer : Renamer) (line : List Char) : Except EntryFault String :=
  match lineParts line with
  | ([], _) => .ok (String.ofList line)
  | (words, comment) => (renameEntryWords renamer words).map (joinWords "\t" · comment)

theorem entryLine_of_quiet {line : List Char} (quiet : (lineParts line).1 = []) :
    entryLine renamer line = .ok (String.ofList line) := by
  unfold entryLine
  split
  · rfl
  · rename_i words comment other parts
    rw [parts] at quiet
    exact absurd quiet other

theorem entryLine_of_words {line : List Char} (words : (lineParts line).1 ≠ []) :
    entryLine renamer line = (renameEntryWords renamer (lineParts line).1).map
      (joinWords "\t" · (lineParts line).2) := by
  unfold entryLine
  split
  · rename_i comment parts
    rw [parts] at words
    exact absurd rfl words
  · rename_i parts
    rw [parts]

theorem entryLine_ok_iff {line : List Char} :
    (∃ out, entryLine renamer line = .ok out) ↔ IsEntryLine line := by
  by_cases words : (lineParts line).1 = []
  · exact iff_of_true ⟨_, entryLine_of_quiet words⟩ (.inl words)
  · rw [IsEntryLine, or_iff_right words, ← @renameEntryWords_ok_iff renamer,
      entryLine_of_words words]
    cases renameEntryWords renamer (lineParts line).1 <;> simp [Except.map]

theorem renameEntryLines_step (number : Nat) (line : List Char) (rest : List (List Char)) :
    renameEntryLines renamer number (line :: rest) =
      match entryLine renamer line with
      | .ok out => (renameEntryLines renamer (number + 1) rest).map (out :: ·)
      | .error cause => .error (.badEntry number cause) := by
  rw [renameEntryLines]
  unfold entryLine lineParts
  generalize cutComment line = sides
  obtain ⟨content, comment⟩ := sides
  dsimp only
  cases wordTexts content with
  | nil => cases renameEntryLines renamer (number + 1) rest <;> rfl
  | cons word more =>
      dsimp only
      cases renameEntryWords renamer (word :: more) with
      | error cause => rfl
      | ok renamed => cases renameEntryLines renamer (number + 1) rest <;> rfl

/-- All lines come out, each as what it becomes. -/
theorem renameEntryLines_ok_iff {number : Nat} {lines : List (List Char)} {outs : List String} :
    renameEntryLines renamer number lines = .ok outs ↔
      List.Forall₂ (fun line out => entryLine renamer line = .ok out) lines outs := by
  induction lines generalizing number outs with
  | nil => simp [renameEntryLines, List.forall₂_nil_left_iff, eq_comm]
  | cons line rest ih =>
      rw [renameEntryLines_step]
      cases first : entryLine renamer line with
      | error cause =>
          refine iff_of_false (fun run => ?_) fun all => ?_
          · cases run
          · cases all with
            | cons here below => cases first.symm.trans here
      | ok out =>
          constructor
          · intro run
            cases later : renameEntryLines renamer (number + 1) rest with
            | error fault =>
                rw [later] at run
                cases run
            | ok more =>
                rw [later] at run
                cases run
                exact .cons first (ih.mp later)
          · intro all
            cases all with
            | cons here below =>
                cases first.symm.trans here
                rw [ih.mpr below]
                rfl

/-- The first line that is no entry is named by its number. -/
theorem renameEntryLines_error {number : Nat} {lines : List (List Char)} {fault : WidenerFault}
    (refused : renameEntryLines renamer number lines = .error fault) :
    ∃ front line back cause, lines = front ++ line :: back ∧ (∀ other ∈ front, IsEntryLine other) ∧
      ¬ IsEntryLine line ∧ fault = .badEntry (number + front.length) cause := by
  induction lines generalizing number with
  | nil => cases refused
  | cons line rest ih =>
      rw [renameEntryLines_step] at refused
      cases first : entryLine renamer line with
      | error cause =>
          rw [first] at refused
          cases refused
          refine ⟨[], line, rest, cause, rfl, nofun, ?_, rfl⟩
          rw [← @entryLine_ok_iff renamer, first]
          nofun
      | ok out =>
          rw [first] at refused
          cases later : renameEntryLines renamer (number + 1) rest with
          | ok more =>
              rw [later] at refused
              cases refused
          | error other =>
              rw [later] at refused
              cases refused
              obtain ⟨front, bad, back, cause, order, good, none, named⟩ := ih later
              refine ⟨line :: front, bad, back, cause, congrArg _ order, ?_, none, ?_⟩
              · exact List.forall_mem_cons.mpr ⟨entryLine_ok_iff.mp ⟨out, first⟩, good⟩
              · rw [named, List.length_cons, Nat.add_right_comm, Nat.add_assoc]

/-- Lines come out exactly if none has words that are not those of an entry. -/
theorem exists_renameEntryLines_iff {number : Nat} {lines : List (List Char)} :
    (∃ outs, renameEntryLines renamer number lines = .ok outs) ↔
      ∀ line ∈ lines, IsEntryLine line := by
  constructor
  · rintro ⟨outs, run⟩
    refine forall_right_of_forall₂ (renameEntryLines_ok_iff.mp run).flip fun out _ line entry => ?_
    exact entryLine_ok_iff.mp ⟨out, entry⟩
  · intro entries
    cases run : renameEntryLines renamer number lines with
    | ok outs => exact ⟨outs, rfl⟩
    | error fault =>
        obtain ⟨front, line, back, cause, order, -, none, -⟩ := renameEntryLines_error run
        exact absurd (entries line (order ▸ List.mem_append_right _ List.mem_cons_self)) none

/-! The header. -/

/-- The lines of a file that is written for a namespace: some without words, the header, and
what stands behind it. -/
structure Headed (source : String) (lines : List (List Char)) where
  quiet : List (List Char)
  header : List Char
  rest : List (List Char)
  version : String
  comment : Option (List Char)
  whole : lines = quiet ++ header :: rest
  silent : ∀ line ∈ quiet, (lineParts line).1 = []
  parts : lineParts header = (["accessWidener", version, source], comment)
  numbered : version = "v1" ∨ version = "v2"

theorem renameAllLines_quiet {number : Nat} {line : List Char} (quiet : (lineParts line).1 = [])
    (rest : List (List Char)) :
    renameAllLines renamer number (line :: rest) =
      match renameAllLines renamer (number + 1) rest with
      | .ok (.remapped lines) => .ok (.remapped (String.ofList line :: lines))
      | .ok (.otherNamespace found) => .ok (.otherNamespace found)
      | .error fault => .error fault := by
  rw [renameAllLines]
  unfold lineParts at quiet
  generalize cutComment line = sides at quiet
  obtain ⟨content, comment⟩ := sides
  dsimp only at quiet ⊢
  rw [quiet]
  cases renameAllLines renamer (number + 1) rest with
  | error fault => rfl
  | ok outcome => cases outcome <;> rfl

theorem renameAllLines_words {number : Nat} {line : List Char} (words : (lineParts line).1 ≠ [])
    (rest : List (List Char)) :
    renameAllLines renamer number (line :: rest) =
      match readHeader line (lineParts line).1 with
      | .error fault => .error fault
      | .ok (version, found) =>
          if found ≠ renamer.table.source then .ok (.otherNamespace found)
          else (renameEntryLines renamer (number + 1) rest).map fun lines =>
            .remapped (joinWords "\t" ["accessWidener", version, renamer.table.target]
              (lineParts line).2 :: lines) := by
  rw [renameAllLines]
  unfold lineParts at words ⊢
  generalize cutComment line = sides at words ⊢
  obtain ⟨content, comment⟩ := sides
  dsimp only at words ⊢
  cases listed : wordTexts content with
  | nil => exact absurd listed words
  | cons word more =>
      dsimp only
      cases readHeader line (word :: more) with
      | error fault => rfl
      | ok sides =>
          obtain ⟨version, found⟩ := sides
          by_cases other : found ≠ renamer.table.source
          · exact (if_pos other).trans (if_pos other).symm
          · refine (if_neg other).trans (Eq.trans ?_ (if_neg other).symm)
            cases renameEntryLines renamer (number + 1) rest <;> rfl

theorem readHeader_ok_iff {line : List Char} {words : List String} {version found : String} :
    readHeader line words = .ok (version, found) ↔
      words = ["accessWidener", version, found] ∧ (version = "v1" ∨ version = "v2") := by
  constructor
  · intro read
    unfold readHeader at read
    split at read
    · split at read
      · rename_i numbered
        cases read
        exact ⟨rfl, by simpa using numbered⟩
      · cases read
    · cases read
  · rintro ⟨rfl, rfl | rfl⟩ <;> rfl

theorem renameAllLines_header {number : Nat} {line : List Char} {version : String}
    {comment : Option (List Char)}
    (parts : lineParts line = (["accessWidener", version, renamer.table.source], comment))
    (numbered : version = "v1" ∨ version = "v2") (rest : List (List Char)) :
    renameAllLines renamer number (line :: rest) =
      (renameEntryLines renamer (number + 1) rest).map fun lines =>
        .remapped (joinWords "\t" ["accessWidener", version, renamer.table.target] comment ::
          lines) := by
  have header : readHeader line (lineParts line).1 = .ok (version, renamer.table.source) :=
    readHeader_ok_iff.mpr ⟨congrArg Prod.fst parts, numbered⟩
  rw [renameAllLines_words (by rw [parts]; nofun), header, parts]
  exact if_neg (not_not.mpr rfl)

/-- A file with the right header: the lines in front of the header as they are, the header, and
what becomes of the lines behind it. -/
theorem renameAllLines_of_headed {lines : List (List Char)}
    (headed : Headed renamer.table.source lines) (number : Nat) :
    renameAllLines renamer number lines =
      (renameEntryLines renamer (number + headed.quiet.length + 1) headed.rest).map fun outs =>
        .remapped (headed.quiet.map String.ofList ++
          joinWords "\t" ["accessWidener", headed.version, renamer.table.target] headed.comment ::
            outs) := by
  obtain ⟨quiet, header, rest, version, comment, rfl, silent, parts, numbered⟩ := headed
  dsimp only
  induction quiet generalizing number with
  | nil => exact renameAllLines_header parts numbered rest
  | cons line quiet ih =>
      obtain ⟨first, later⟩ := List.forall_mem_cons.mp silent
      rw [List.cons_append, renameAllLines_quiet first, ih (number + 1) later, List.length_cons,
        Nat.add_right_comm number 1, Nat.add_assoc number]
      cases renameEntryLines renamer (number + (quiet.length + 1) + 1) rest <;> rfl

/-- A file that a hop renames has the right header. -/
theorem exists_headed {number : Nat} {lines : List (List Char)} {outs : List String}
    (taken : renameAllLines renamer number lines = .ok (.remapped outs)) :
    Nonempty (Headed renamer.table.source lines) := by
  induction lines generalizing number outs with
  | nil => cases taken
  | cons line rest ih =>
      by_cases words : (lineParts line).1 = []
      · rw [renameAllLines_quiet words] at taken
        split at taken
        · rename_i lines later
          obtain ⟨headed⟩ := ih later
          exact ⟨{ headed with
            quiet := line :: headed.quiet
            whole := congrArg _ headed.whole
            silent := List.forall_mem_cons.mpr ⟨words, headed.silent⟩ }⟩
        · cases taken
        · cases taken
      · rw [renameAllLines_words words] at taken
        split at taken
        · cases taken
        · rename_i version found read
          obtain ⟨header, numbered⟩ := readHeader_ok_iff.mp read
          split at taken
          · cases taken
          · rename_i same
            cases Decidable.of_not_not same
            exact ⟨⟨[], line, rest, version, _, rfl, nofun, Prod.ext header rfl, numbered⟩⟩

end Widener

end ArchiveRemap
