import ArchiveRemap.Proofs.Tiny.Grammar

/-!
What a text lists. A class line and the lines of members up to the next class line are a
section. The classes of a tree that was read are its sections, put into it one after the other,
so of several sections of one class only the last is left.
-/

namespace ArchiveRemap.Tiny

/-! Sections. -/

/-- The lines up to the next one that opens a class. -/
def untilClass (lines : List (List Char)) : List (List Char) :=
  lines.takeWhile fun text => !(Line.ofText text).opens

/-- Whether a line says that names have escapes. It counts only above the first class. -/
def Line.isEscapes (line : Line) : Bool := line.depth = 1 && line.kind = "escaped-names"

def escapes (lines : List (List Char)) : Bool :=
  (untilClass lines).any fun text => (Line.ofText text).isEscapes

section Listing

variable (width : Nat) (escaped : Bool)

/-- The member that a line is about. -/
def Line.member? (kind : MemberKind) (line : Line) : Option MemberRow :=
  match line.parts with
  | mark :: desc :: names =>
      if line.depth = 1 ∧ mark = [kind.mark] then
        some ⟨partText escaped desc, rowOf width escaped names⟩
      else none
  | _ => none

/-- The members of one kind that lines list before the next class. -/
def listed (kind : MemberKind) (lines : List (List Char)) : List MemberRow :=
  (untilClass lines).filterMap fun text => (Line.ofText text).member? width escaped kind

def ClassRow.extend (entry : ClassRow) (lines : List (List Char)) : ClassRow :=
  { entry with
    fields := entry.fields ++ listed width escaped .field lines
    methods := entry.methods ++ listed width escaped .method lines }

/-- The classes that lines open, by their first names, each with the members of its section. -/
def sections : List (List Char) → List (String × ClassRow)
  | [] => []
  | text :: rest =>
      let row := rowOf width escaped ((Line.ofText text).parts.drop 1)
      if (Line.ofText text).opens then
        (row.firstName, ClassRow.extend width escaped ⟨row, [], []⟩ rest) :: sections rest
      else sections rest

end Listing

/-- The sections of a whole text. -/
def sectionsOf : List (List Char) → List (String × ClassRow)
  | [] => []
  | header :: rest => sections (headerWidth header) (escapes rest) rest

/-! What one line adds. -/

section Lines

variable {width : Nat} {escaped : Bool} {kind : MemberKind} {text : List Char}
  {rest : List (List Char)}

theorem Line.member?_eq_some_iff {line : Line} {member : MemberRow} :
    line.member? width escaped kind = some member ↔
      ∃ desc names, line = ⟨1, [kind.mark] :: desc :: names⟩ ∧
        member = ⟨partText escaped desc, rowOf width escaped names⟩ := by
  obtain ⟨depth, parts⟩ := line
  match parts with
  | [] | [_] => simp [member?]
  | mark :: desc :: names =>
      by_cases same : depth = 1 ∧ mark = [kind.mark]
      · obtain ⟨rfl, rfl⟩ := same
        simp [member?, eq_comm]
      · simp only [member?, if_neg same, reduceCtorEq, false_iff]
        rintro ⟨desc, names, ⟨⟩, -⟩
        exact same ⟨rfl, rfl⟩

theorem untilClass_of_opens (opens : (Line.ofText text).opens = true) :
    untilClass (text :: rest) = [] := by
  rw [untilClass, List.takeWhile_cons, opens]
  rfl

theorem untilClass_of_shut (shut : (Line.ofText text).opens = false) :
    untilClass (text :: rest) = text :: untilClass rest := by
  rw [untilClass, List.takeWhile_cons, shut]
  rfl

theorem escapes_of_shut (shut : (Line.ofText text).opens = false) :
    escapes (text :: rest) = ((Line.ofText text).isEscapes || escapes rest) := by
  rw [escapes, untilClass_of_shut shut]
  rfl

theorem escapes_of_opens (opens : (Line.ofText text).opens = true) :
    escapes (text :: rest) = false := by
  rw [escapes, untilClass_of_opens opens]
  rfl

theorem Line.isEscapes_iff {depth : Nat} {part : List Char} :
    Line.isEscapes ⟨depth, part :: rest⟩ = true ↔ depth = 1 ∧ part = "escaped-names".toList := by
  rw [Line.isEscapes, Bool.and_eq_true, decide_eq_true_eq, decide_eq_true_eq, Line.kind_eq_iff]

theorem sections_of_shut (shut : (Line.ofText text).opens = false) :
    sections width escaped (text :: rest) = sections width escaped rest := by
  rw [sections, if_neg (by simp [shut])]

theorem sections_of_class {names : List (List Char)}
    (line : Line.ofText text = ⟨0, ['c'] :: names⟩) :
    sections width escaped (text :: rest) =
      ((rowOf width escaped names).firstName,
        ClassRow.extend width escaped ⟨rowOf width escaped names, [], []⟩ rest) ::
          sections width escaped rest := by
  rw [sections, if_pos (Line.opens_iff.mpr ⟨names, line⟩), line, List.drop_one, List.tail_cons]

theorem putAll_of_class {names : List (List Char)} {row : Row}
    (line : Line.ofText text = ⟨0, ['c'] :: names⟩) (named : row = rowOf width escaped names)
    (classes : Keyed String ClassRow) :
    ((classes.put row.firstName ⟨row, [], []⟩).put row.firstName
        (ClassRow.extend width escaped ⟨row, [], []⟩ rest)).putAll (sections width escaped rest) =
      classes.putAll (sections width escaped (text :: rest)) := by
  rw [Keyed.put_put, sections_of_class line, named]
  rfl

theorem extend_nil (entry : ClassRow) : ClassRow.extend width escaped entry [] = entry := by
  simp [ClassRow.extend, listed, untilClass]

theorem extend_of_opens (opens : (Line.ofText text).opens = true) (entry : ClassRow) :
    ClassRow.extend width escaped entry (text :: rest) = entry := by
  simp [ClassRow.extend, listed, untilClass_of_opens opens]

/-- A line that opens nothing and is about no member. -/
structure Line.Quiet (line : Line) : Prop where
  shut : line.opens = false
  noMember : ∀ width escaped kind, line.member? width escaped kind = none

theorem extend_of_quiet (quiet : (Line.ofText text).Quiet) (entry : ClassRow) :
    ClassRow.extend width escaped entry (text :: rest) =
      ClassRow.extend width escaped entry rest := by
  simp [ClassRow.extend, listed, untilClass_of_shut quiet.shut, quiet.noMember]

theorem extend_of_member {desc : List Char} {names : List (List Char)}
    (line : Line.ofText text = ⟨1, [kind.mark] :: desc :: names⟩) (entry : ClassRow) :
    ClassRow.extend width escaped entry (text :: rest) =
      ClassRow.extend width escaped
        (entry.addMember kind ⟨partText escaped desc, rowOf width escaped names⟩) rest := by
  have shut : (Line.ofText text).opens = false := by simp [line, Line.opens]
  cases kind <;>
    simp [ClassRow.extend, ClassRow.addMember, listed, untilClass_of_shut shut, line, Line.member?,
      MemberKind.mark]

/-- A line whose first part is another one than those of classes and members. -/
theorem Line.Quiet.of_shut {line : Line} (shut : line.opens = false)
    (unmarked : ∀ kind : MemberKind, ∀ rest, line ≠ ⟨1, [kind.mark] :: rest⟩) : line.Quiet where
  shut := shut
  noMember width escaped kind := by
    refine Option.eq_none_iff_forall_ne_some.mpr fun member made => ?_
    obtain ⟨desc, names, same, -⟩ := Line.member?_eq_some_iff.mp made
    exact unmarked kind _ same

theorem quiet_of_blank (blank : Text.allBlank text = true) : (Line.ofText text).Quiet := by
  refine .of_shut (opens_of_blank blank) fun kind rest line => ?_
  have ink := Line.ink_of_mem line List.mem_cons_self (by cases kind <;> decide)
  exact absurd ink (by simp [blank])

theorem silent_of_blank (blank : Text.allBlank text = true) :
    (Line.ofText text).isEscapes = false := by
  refine Bool.eq_false_iff.mpr fun marked => ?_
  obtain ⟨depth, part, rest, line⟩ := Line.exists_ofText text
  rw [line, Line.isEscapes_iff] at marked
  obtain ⟨-, rfl⟩ := marked
  have ink : Text.allBlank text = false := Line.ink_of_mem line List.mem_cons_self (by decide)
  exact absurd ink (by simp [blank])

theorem silent_of_deep (deep : 2 ≤ (Line.ofText text).depth) :
    (Line.ofText text).isEscapes = false := by
  have deeper : (Line.ofText text).depth ≠ 1 := by omega
  simp [Line.isEscapes, deeper]

theorem quiet_of_comment (line : Line.ofText text = ⟨1, ['c'] :: rest⟩) :
    (Line.ofText text).Quiet := by
  refine .of_shut (by simp [line, Line.opens]) fun kind rest same => ?_
  rw [line] at same
  cases kind <;> simp [MemberKind.mark] at same

theorem quiet_of_deep (deep : 2 ≤ (Line.ofText text).depth) : (Line.ofText text).Quiet := by
  refine .of_shut ?_ fun kind rest same => ?_
  · have indented : (Line.ofText text).depth ≠ 0 := by omega
    simp [Line.opens, indented]
  · rw [same] at deep
    exact absurd deep (by simp)

end Lines

/-! Reading. -/

namespace Reading

variable {reading after : Reading} {text : List Char} {lines : List (List Char)} {number : Nat}

/-- Below a class line, the class gets the members up to the next class line, and the sections
from there on are put into the tree in turn. -/
theorem classes_below_class {owner : String} {entry : ClassRow}
    (read : readLines number reading lines = .ok after) (current : reading.current = some owner)
    (found : reading.tree.classes.get? owner = some entry) :
    after.tree.classes =
      (reading.tree.classes.put owner (entry.extend reading.width reading.escaped lines)).putAll
        (sections reading.width reading.escaped lines) := by
  induction lines generalizing number reading owner entry with
  | nil =>
      cases read
      rw [extend_nil, Keyed.put_of_get? found]
      rfl
  | cons text rest ih =>
      obtain ⟨middle, first, later⟩ := readLines_cons read
      have step := step_readLine reading text
      rw [first] at step
      -- What neither opens a class nor adds a member changes neither side.
      have skip (quiet : (Line.ofText text).Quiet) (same : middle = reading) :
          after.tree.classes =
            (reading.tree.classes.put owner
              (entry.extend reading.width reading.escaped (text :: rest))).putAll
                (sections reading.width reading.escaped (text :: rest)) := by
        subst same
        rw [extend_of_quiet quiet, sections_of_shut quiet.shut]
        exact ih later current found
      cases step with
      | blank empty => exact skip (quiet_of_blank empty) rfl
      | comment line other => exact skip (quiet_of_comment line) rfl
      | deep deep => exact skip (quiet_of_deep deep) rfl
      | escapes line missing => cases missing.symm.trans current
      | property line missing other => cases missing.symm.trans current
      | opens line made =>
          obtain ⟨row, named, rfl⟩ := openClass_eq_ok made
          have fresh := ih later rfl (by rw [Keyed.get?_put, if_pos rfl])
          -- The class before is complete, and its entry is the one that is there already.
          rw [extend_of_opens (Line.opens_iff.mpr ⟨_, line⟩), Keyed.put_of_get? found]
          exact fresh.trans (putAll_of_class line (readRow_eq_ok named).1 _)
      | member kind line other made =>
          obtain ⟨mark, desc, names, row, known, parts, named, there, rfl⟩ := addMember_eq_ok made
          cases current.symm.trans other
          cases found.symm.trans there
          obtain ⟨-, rfl⟩ := List.cons.inj parts
          have grown := ih later other (by rw [Keyed.get?_put, if_pos rfl])
          rw [Keyed.put_put] at grown
          rw [extend_of_member line, sections_of_shut (by simp [line, Line.opens]),
            ← (readRow_eq_ok named).1]
          exact grown

/-- Above the first class line, the lines that say that names have escapes count. -/
theorem classes_above_class (read : readLines number reading lines = .ok after)
    (missing : reading.current = none) :
    after.tree.classes = reading.tree.classes.putAll
      (sections reading.width (reading.escaped || escapes lines) lines) := by
  induction lines generalizing number reading with
  | nil =>
      cases read
      rfl
  | cons text rest ih =>
      obtain ⟨middle, first, later⟩ := readLines_cons read
      have step := step_readLine reading text
      rw [first] at step
      have skip (shut : (Line.ofText text).opens = false)
          (silent : (Line.ofText text).isEscapes = false) (same : middle = reading) :
          after.tree.classes = reading.tree.classes.putAll
            (sections reading.width (reading.escaped || escapes (text :: rest)) (text :: rest)) := by
        subst same
        rw [sections_of_shut shut, escapes_of_shut shut, silent, Bool.false_or]
        exact ih later missing
      cases step with
      | blank empty => exact skip (opens_of_blank empty) (silent_of_blank empty) rfl
      | deep deep => exact skip (quiet_of_deep deep).shut (silent_of_deep deep) rfl
      | comment line other => cases missing.symm.trans other
      | member kind line other made => cases missing.symm.trans other
      | property line other differs =>
          refine skip (by simp [line, Line.opens]) ?_ rfl
          rw [line, Bool.eq_false_iff, ne_eq, Line.isEscapes_iff]
          exact fun marked => differs marked.2
      | escapes line other =>
          have marked : (Line.ofText text).isEscapes = true := by
            rw [line, Line.isEscapes_iff]
            exact ⟨rfl, rfl⟩
          have shut : (Line.ofText text).opens = false := by simp [line, Line.opens]
          rw [sections_of_shut shut, escapes_of_shut shut, marked, Bool.true_or, Bool.or_true]
          exact ih later missing
      | opens line made =>
          obtain ⟨row, named, rfl⟩ := openClass_eq_ok made
          -- From here on a property line would be no entry, so the escapes are settled.
          have below := classes_below_class later rfl (by rw [Keyed.get?_put, if_pos rfl])
          rw [escapes_of_opens (Line.opens_iff.mpr ⟨_, line⟩), Bool.or_false]
          exact below.trans (putAll_of_class line (readRow_eq_ok named).1 _)

end Reading

namespace Tree

variable {origin text : String} {tree : Tree}

/-- Whether a class of the tree has a member. -/
def HasMember (tree : Tree) (name : String) (kind : MemberKind) (member : MemberRow) : Prop :=
  ∃ entry, tree.class? name = some entry ∧ member ∈ entry.members kind

instance (tree : Tree) (name : String) (kind : MemberKind) (member : MemberRow) :
    Decidable (tree.HasMember name kind member) :=
  decidable_of_iff ((tree.class? name).any fun entry => member ∈ entry.members kind) (by
    simp [HasMember, Option.any_eq_true])

theorem classes_parse (parsed : Tree.parse origin text = .ok tree) :
    tree.classes = Keyed.ofList (sectionsOf (Text.lines text.toList)) := by
  obtain ⟨header, rest, namespaces, reading, split, headed, read, rfl⟩ := exists_of_parse parsed
  have classes := Reading.classes_above_class read rfl
  rw [Reading.width, (length_readHeader headed).1, Bool.false_or] at classes
  rw [split, classes]
  rfl

/-- A text that opens no class twice is read without a loss. -/
theorem classes_parse_of_distinct (parsed : Tree.parse origin text = .ok tree)
    (distinct : (Keyed.keys (sectionsOf (Text.lines text.toList))).Nodup) :
    tree.classes = sectionsOf (Text.lines text.toList) := by
  rw [classes_parse parsed, Keyed.ofList_of_nodup distinct]

/-- The classes of a tree that was read are the sections of its text, put into it one after the
other. So a class of several sections has the members of the last one, and no others. -/
theorem parse_keeps_last_sections (parsed : Tree.parse origin text = .ok tree) :
    tree.classes = Keyed.ofList (sectionsOf (Text.lines text.toList)) ∧
      ∀ block ∈ sectionsOf (Text.lines text.toList), ∃ last,
        Keyed.get? block.1 (sectionsOf (Text.lines text.toList)).reverse = some last ∧
          ∀ kind member, tree.HasMember block.1 kind member ↔ member ∈ last.members kind := by
  have classes := classes_parse parsed
  refine ⟨classes, fun block listed => ?_⟩
  have known : block.1 ∈ Keyed.keys (Keyed.ofList (sectionsOf (Text.lines text.toList))) :=
    Keyed.mem_keys_ofList.mpr (List.mem_map_of_mem listed)
  rw [← classes] at known
  cases found : tree.class? block.1 with
  | none => exact absurd known (Keyed.get?_eq_none_iff.mp found)
  | some last =>
      refine ⟨last, ?_, fun kind member => ?_⟩
      · rw [← Keyed.get?_ofList, ← classes]
        exact found
      · simp [HasMember, found]

/-- A class that is opened again, with a method of the first time and without its field. -/
def reopenedText : String :=
  "tiny\t2\t0\ta\tb\n\tescaped-names\n" ++
    "c\tP\tQ\n\tf\tI\tx\\ty\tz\n\tc\tseen once\n\n\tm\t()V\td\te\n" ++
      "c\tR\nc\tP\tS\n\tm\t()V\td\te\n\t\tp\t1\n"

def reopenedTree : Tree :=
  ⟨["a", "b"],
    [("P", ⟨[some "P", some "S"], [], [⟨"()V", [some "d", some "e"]⟩]⟩),
      ("R", ⟨[some "R", none], [], []⟩)]⟩

theorem parse_keeps_last_sections_reopened :
    Tree.parse "m.tiny" reopenedText = .ok reopenedTree ∧
      reopenedTree.HasMember "P" .method ⟨"()V", [some "d", some "e"]⟩ ∧
        ¬ reopenedTree.HasMember "P" .field ⟨"I", [some "x\ty", some "z"]⟩ := by
  have parsed : Tree.parse "m.tiny" reopenedText = .ok reopenedTree := by decide +kernel
  have listed : ("P", ⟨[some "P", some "Q"], [⟨"I", [some "x\ty", some "z"]⟩],
      [⟨"()V", [some "d", some "e"]⟩]⟩) ∈ sectionsOf (Text.lines reopenedText.toList) := by
    decide +kernel
  have lastSection : Keyed.get? "P" (sectionsOf (Text.lines reopenedText.toList)).reverse =
      some ⟨[some "P", some "S"], [], [⟨"()V", [some "d", some "e"]⟩]⟩ := by
    decide +kernel
  obtain ⟨-, kept⟩ := parse_keeps_last_sections parsed
  obtain ⟨last, found, members⟩ := kept _ listed
  cases lastSection.symm.trans found
  exact ⟨parsed, (members .method _).mpr (by decide), fun there =>
    absurd ((members .field _).mp there) (by decide)⟩

/-- The same class line again, and the field that was read below it is gone. -/
theorem parse_drops_reopened :
    ¬ ∀ origin text tree, Tree.parse origin text = .ok tree →
      ∀ block ∈ sectionsOf (Text.lines text.toList), ∀ kind, ∀ member ∈ block.2.members kind,
        tree.HasMember block.1 kind member := by
  intro keeps
  have parsed : Tree.parse "m.tiny" "tiny\t2\t0\ta\tb\nc\tP\tQ\n\tf\tI\tx\ty\nc\tP\tQ\n" =
      .ok ⟨["a", "b"], [("P", ⟨[some "P", some "Q"], [], []⟩)]⟩ := by decide +kernel
  have field := keeps _ _ _ parsed
    ("P", ⟨[some "P", some "Q"], [⟨"I", [some "x", some "y"]⟩], []⟩) (by decide +kernel)
    .field ⟨"I", [some "x", some "y"]⟩ (by decide)
  exact absurd field (by decide)

end Tree

end ArchiveRemap.Tiny
