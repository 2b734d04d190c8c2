import ArchiveRemap.Proofs.Tiny.Line

/-!
Lines of Tiny text below the header. There is a rule for each kind of line, and every line falls
under one of them: it opens a class, adds a member to the last one, says before the first one
that names have escapes, changes nothing, or is no entry. What holds of each line holds of a
run over all of them.
-/

namespace ArchiveRemap

/-- The letter that lines of fields or of methods start with. -/
def MemberKind.mark : MemberKind → Char
  | .field => 'f'
  | .method => 'm'

namespace Tiny

/-- The names that parts give, in their places. -/
def rowOf (width : Nat) (escaped : Bool) (parts : List (List Char)) : Row :=
  Row.widen width (parts.map fun part =>
    if part.isEmpty then none else some (partText escaped part))

theorem readRow_eq_ok {width : Nat} {escaped : Bool} {parts : List (List Char)} {row : Row}
    (read : readRow width escaped parts = .ok row) :
    row = rowOf width escaped parts ∧ parts.length ≤ width ∧ ∃ name, row.head? = some (some name) := by
  unfold readRow at read
  split at read
  · cases read
  · rename_i narrow
    dsimp only at read
    split at read
    · rename_i name rest made
      cases read
      exact ⟨rfl, by omega, name, congrArg List.head? made⟩
    · cases read

/-! The parts of a line. -/

namespace Line

variable {text part : List Char} {rest : List (List Char)}

theorem parts_ofText_ne_nil (text : List Char) : (ofText text).parts ≠ [] :=
  List.splitOn_ne_nil '\t' _

theorem exists_ofText (text : List Char) :
    ∃ depth part rest, ofText text = ⟨depth, part :: rest⟩ := by
  obtain ⟨part, rest, split⟩ := List.exists_cons_of_ne_nil (parts_ofText_ne_nil text)
  exact ⟨(ofText text).depth, part, rest, by rw [← split]⟩

theorem kind_eq_iff {depth : Nat} {kind : String} :
    Line.kind ⟨depth, part :: rest⟩ = kind ↔ part = kind.toList := by
  rw [Line.kind, List.headD_cons, ← String.toList_inj, String.toList_ofList]

theorem subset_of_mem_parts (member : part ∈ (ofText text).parts) : part ⊆ text :=
  fun _ inside => (List.dropWhile_suffix _).subset ((Text.mem_splitOn member).2 inside)

/-- A line with a character in its first part that is no blank is not blank. -/
theorem ink_of_mem {depth : Nat} {c : Char} (line : ofText text = ⟨depth, part :: rest⟩)
    (inside : c ∈ part) (ink : Text.isBlank c = false) : Text.allBlank text = false := by
  have member : part ∈ (ofText text).parts := by
    rw [line]
    exact List.mem_cons_self
  rw [Text.allBlank, List.all_eq_false]
  exact ⟨c, subset_of_mem_parts member inside, by simp [ink]⟩

end Line

namespace Reading

variable {reading after : Reading} {text : List Char}

/-- What comes of a line. -/
inductive Step (reading : Reading) (text : List Char) : Except TinyFault Reading → Prop where
  | blank (empty : Text.allBlank text = true) : Step reading text (.ok reading)
  | opens {names : List (List Char)} {outcome : Except TinyFault Reading}
      (line : Line.ofText text = ⟨0, ['c'] :: names⟩)
      (made : reading.openClass ⟨0, ['c'] :: names⟩ = outcome) : Step reading text outcome
  | escapes {rest : List (List Char)}
      (line : Line.ofText text = ⟨1, "escaped-names".toList :: rest⟩)
      (missing : reading.current = none) : Step reading text (.ok { reading with escaped := true })
  | property {part : List Char} {rest : List (List Char)}
      (line : Line.ofText text = ⟨1, part :: rest⟩) (missing : reading.current = none)
      (other : part ≠ "escaped-names".toList) : Step reading text (.ok reading)
  | member {owner : String} (kind : MemberKind) {rest : List (List Char)}
      {outcome : Except TinyFault Reading}
      (line : Line.ofText text = ⟨1, [kind.mark] :: rest⟩) (current : reading.current = some owner)
      (made : reading.addMember kind owner ⟨1, [kind.mark] :: rest⟩ = outcome) :
      Step reading text outcome
  | comment {owner : String} {rest : List (List Char)}
      (line : Line.ofText text = ⟨1, ['c'] :: rest⟩) (current : reading.current = some owner) :
      Step reading text (.ok reading)
  | deep (deep : 2 ≤ (Line.ofText text).depth) : Step reading text (.ok reading)
  | flush {part : List Char} {rest : List (List Char)} (ink : Text.allBlank text = false)
      (line : Line.ofText text = ⟨0, part :: rest⟩) (other : part ≠ ['c']) :
      Step reading text (.error (.unexpectedEntry (String.ofList part)))
  | stray {owner : String} {part : List Char} {rest : List (List Char)}
      (ink : Text.allBlank text = false) (line : Line.ofText text = ⟨1, part :: rest⟩)
      (current : reading.current = some owner) (other : part ≠ ['c'])
      (unmarked : ∀ kind : MemberKind, part ≠ [kind.mark]) :
      Step reading text (.error (.unexpectedEntry (String.ofList part)))

theorem step_readLine (reading : Reading) (text : List Char) :
    Step reading text (reading.readLine text) := by
  cases ink : Text.allBlank text with
  | true =>
      rw [readLine, ink, if_pos rfl]
      exact .blank ink
  | false =>
      obtain ⟨depth, part, rest, line⟩ := Line.exists_ofText text
      rw [readLine, ink, if_neg Bool.false_ne_true, line]
      simp only [Line.kind_eq_iff]
      split
      case h_1 =>
        split
        · rename_i same
          exact .opens (same ▸ line) (same ▸ rfl)
        · rename_i other
          exact .flush ink line other
      case h_2 missing =>
        split
        · rename_i same
          exact .escapes (same ▸ line) missing
        · rename_i other
          exact .property line missing other
      case h_3 owner current =>
        split
        · rename_i same
          exact .member .field (same ▸ line) current (same ▸ rfl)
        split
        · rename_i same
          exact .member .method (same ▸ line) current (same ▸ rfl)
        split
        · rename_i same
          exact .comment (same ▸ line) current
        · rename_i other
          exact .stray ink line current other fun kind => by cases kind <;> assumption
      -- What is left is deeper than members: no other case holds, so the depth is two or more.
      case h_4 depth _ _ flush missing known =>
        have indented : depth ≠ 0 := flush
        have deeper : depth ≠ 1 := fun one => by
          cases current : reading.current with
          | none => exact missing one current
          | some owner => exact known owner one current
        refine .deep ?_
        rw [line]
        show 2 ≤ depth
        omega

/-- Opening a class puts a row without members under its first name. -/
theorem openClass_eq_ok {line : Line} (read : reading.openClass line = .ok after) :
    ∃ row, readRow reading.width reading.escaped (line.parts.drop 1) = .ok row ∧
      after = ⟨⟨reading.tree.namespaces, reading.tree.classes.put row.firstName ⟨row, [], []⟩⟩,
        reading.escaped, some row.firstName⟩ := by
  simp only [openClass, bind, Except.bind] at read
  split at read
  · cases read
  · rename_i row found
    cases read
    exact ⟨row, found, rfl⟩

/-- A member goes behind those of its owner, and nothing else changes. -/
theorem addMember_eq_ok {kind : MemberKind} {owner : String} {line : Line}
    (read : reading.addMember kind owner line = .ok after) :
    ∃ mark desc names row entry, line.parts = mark :: desc :: names ∧
      readRow reading.width reading.escaped names = .ok row ∧
        reading.tree.classes.get? owner = some entry ∧
          after = ⟨⟨reading.tree.namespaces, reading.tree.classes.put owner
            (entry.addMember kind ⟨partText reading.escaped desc, row⟩)⟩,
            reading.escaped, reading.current⟩ := by
  unfold addMember at read
  split at read
  · rename_i mark desc names parts
    simp only [bind, Except.bind] at read
    split at read
    · cases read
    · rename_i row found
      split at read
      · cases read
      · rename_i entry known
        cases read
        exact ⟨mark, desc, names, row, entry, parts, found, known, rfl⟩
  · cases read

/-- What a line can do: open a class, add a member to the last one, say before the first one
that names have escapes, or nothing. -/
theorem readLine_cases (read : reading.readLine text = .ok after) :
    ((Line.ofText text).depth = 0 ∧ reading.openClass (Line.ofText text) = .ok after) ∨
      (∃ owner kind, reading.current = some owner ∧
        reading.addMember kind owner (Line.ofText text) = .ok after) ∨
      ((Line.ofText text).depth = 1 ∧ reading.current = none ∧
        after = { reading with escaped := true }) ∨
      ((Text.allBlank text = true ∨ (Line.ofText text).depth ≠ 0) ∧ after = reading) := by
  have step := step_readLine reading text
  rw [read] at step
  cases step with
  | blank empty => exact .inr (.inr (.inr ⟨.inl empty, rfl⟩))
  | opens line made => exact .inl ⟨by rw [line], by rw [line, made]⟩
  | escapes line missing => exact .inr (.inr (.inl ⟨by rw [line], missing, rfl⟩))
  | property line missing other => exact .inr (.inr (.inr ⟨.inr (by simp [line]), rfl⟩))
  | member kind line current made => exact .inr (.inl ⟨_, kind, current, by rw [line, made]⟩)
  | comment line current => exact .inr (.inr (.inr ⟨.inr (by simp [line]), rfl⟩))
  | deep deep => exact .inr (.inr (.inr ⟨.inr (by omega), rfl⟩))

theorem namespaces_readLine (read : reading.readLine text = .ok after) :
    after.tree.namespaces = reading.tree.namespaces := by
  rcases readLine_cases read with ⟨-, opened⟩ | ⟨owner, kind, -, added⟩ | ⟨-, -, rfl⟩ | ⟨-, rfl⟩
  · obtain ⟨row, -, rfl⟩ := openClass_eq_ok opened
    rfl
  · obtain ⟨mark, desc, names, row, entry, -, -, -, rfl⟩ := addMember_eq_ok added
    rfl
  · rfl
  · rfl

/-! All lines. -/

theorem readLines_cons {number : Nat} {rest : List (List Char)}
    (read : readLines number reading (text :: rest) = .ok after) :
    ∃ middle, reading.readLine text = .ok middle ∧
      readLines (number + 1) middle rest = .ok after := by
  rw [readLines] at read
  split at read
  · rename_i middle first
    exact ⟨middle, first, read⟩
  · cases read

/-- What each line preserves, a run over lines preserves. -/
theorem readLines_induction (holds : Reading → Prop) {number : Nat}
    {lines : List (List Char)}
    (step : ∀ reading after, ∀ text ∈ lines, holds reading → reading.readLine text = .ok after →
      holds after) (start : holds reading)
    (read : readLines number reading lines = .ok after) : holds after := by
  induction lines generalizing number reading with
  | nil =>
      cases read
      exact start
  | cons text rest ih =>
      obtain ⟨middle, first, later⟩ := readLines_cons read
      exact ih (fun reading after other listed => step reading after other (.tail _ listed))
        (step _ _ text List.mem_cons_self start first) later

end Reading

/-- A text that is read has a header, and lines that are read below it. -/
theorem Tree.exists_of_parse {origin text : String} {tree : Tree}
    (parsed : Tree.parse origin text = .ok tree) :
    ∃ header rest namespaces reading, Text.lines text.toList = header :: rest ∧
      readHeader header = .ok namespaces ∧
        Reading.readLines 2 ⟨⟨namespaces, []⟩, false, none⟩ rest = .ok reading ∧
          reading.tree = tree := by
  unfold Tree.parse at parsed
  split at parsed
  · rename_i found read
    cases parsed
    unfold readFile at read
    split at read
    · cases read
    · rename_i header rest split
      split at read
      · cases read
      · rename_i namespaces headed
        cases done : Reading.readLines 2 ⟨⟨namespaces, []⟩, false, none⟩ rest with
        | error fault =>
            rw [done] at read
            cases read
        | ok reading =>
            rw [done] at read
            cases read
            exact ⟨header, rest, namespaces, reading, split, headed, done, rfl⟩
  · cases parsed

end Tiny

end ArchiveRemap
