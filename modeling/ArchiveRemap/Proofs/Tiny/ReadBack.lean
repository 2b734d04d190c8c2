import ArchiveRemap.Proofs.Namespace.Route
import ArchiveRemap.Proofs.Tiny.Naming
import ArchiveRemap.Proofs.Tiny.Printed
import ArchiveRemap.Proofs.Tiny.Texts

/-!
Tables that are read back. A table made from mapping data comes back from its print exactly if
no text of it has a tab or a line feed in it, and none that ends its line has a carriage return
for its last character.
-/

namespace ArchiveRemap

open Tiny

/-! Names of a table. -/

section All

variable {onName : String → Prop}

theorem Tiny.Row.All.pick? {row : Row} {columns : List Nat} {name : String} (all : row.All onName)
    (picked : row.pick? columns = some name) : onName name := by
  obtain ⟨column, -, found⟩ := List.exists_of_findSome?_eq_some picked
  cases place : row[column]? with
  | none =>
      rw [place] at found
      cases found
  | some name? =>
      rw [place, Option.bind_some, id] at found
      exact all name (found ▸ List.mem_of_getElem? place)

/-- The names of a table are names of the mapping data. -/
theorem all_makeTable {graph : Graph} {tree : Tree} {source target : Nat} {table : RenameTable}
    (made : makeTable graph tree source target = .ok table)
    (all : tree.All onName fun _ => True) :
    table.All (fun _ => True) onName onName ∧ table.classes.keys.Nodup := by
  rw [makeTable_eq_ok made]
  refine ⟨RenameTable.All.insertRenames (by simp [RenameTable.All, RenameTable.empty]) ?_,
    RenameTable.distinct_insertRenames (by simp [RenameTable.empty, Keyed.keys]) _⟩
  intro pair member
  obtain ⟨entry, there, renamed⟩ := List.mem_filterMap.mp member
  have names := all entry there
  unfold renameOf at renamed
  split at renamed
  · rename_i name mapped named given
    cases renamed
    refine ⟨names.names.pick? named, names.names.pick? given, fun kind rename listed => ?_⟩
    rw [members_renameBetween, mem_renamesOf] at listed
    obtain ⟨row, rowListed, rowNamed, rowGiven, -⟩ := listed
    have rowNames := (names.members kind row rowListed).names
    exact ⟨trivial, rowNames.pick? rowNamed, rowNames.pick? rowGiven⟩
  · cases renamed

end All

/-! What a text says that is read as a table. -/

namespace Tiny.Reading

variable {reading after : Reading} {text : List Char}

theorem depth_ofText {c : Char} (first : c ∈ text.head?) (ink : Text.isBlank c = false) :
    (Line.ofText text).depth = 0 := by
  obtain ⟨rest, rfl⟩ := List.head?_eq_some_iff.mp first
  have mark : ¬decide (c = '\t') = true := fun same => by
    rw [of_decide_eq_true same] at ink
    exact absurd ink (by decide)
  rw [Line.ofText, List.takeWhile_cons, if_neg mark]
  rfl

/-- Whether names have escapes is settled once there is a class. -/
theorem escaped_readLine (read : reading.readLine text = .ok after)
    (settled : reading.current.isSome ∨ ∃ c ∈ text.head?, Text.isBlank c = false) :
    after.escaped = reading.escaped ∧ after.current.isSome := by
  rcases readLine_cases read with ⟨-, opened⟩ | ⟨owner, kind, current, added⟩ |
    ⟨deep, missing, -⟩ | ⟨other, rfl⟩
  · obtain ⟨row, -, rfl⟩ := openClass_eq_ok opened
    exact ⟨rfl, rfl⟩
  · obtain ⟨mark, desc, names, row, entry, -, -, -, rfl⟩ := addMember_eq_ok added
    exact ⟨rfl, by rw [current]; rfl⟩
  · rcases settled with current | ⟨c, first, ink⟩
    · rw [missing] at current
      cases current
    · rw [depth_ofText first ink] at deep
      cases deep
  · refine ⟨rfl, settled.resolve_right ?_⟩
    rintro ⟨c, first, ink⟩
    rcases other with blank | deep
    · rw [List.all_eq_true.mp blank c (List.mem_of_mem_head? first)] at ink
      cases ink
    · exact deep (depth_ofText first ink)

theorem spells_plain : Spells Text.Plain Text.Plain false where
  name part _ tab feed := by rw [partText, Text.Plain]; simpa using ⟨tab, feed⟩
  desc part tab feed := by rw [partText, Text.Plain]; simpa using ⟨tab, feed⟩

/-- Below a header, names and descriptors are read as they are spelt, if the first line is one
of a class. -/
theorem plain_readLines {namespaces : List String} {number : Nat} {lines : List (List Char)}
    (feeds : ∀ line ∈ lines, '\n' ∉ line)
    (start : ∀ line ∈ lines.head?, ∃ c ∈ line.head?, Text.isBlank c = false)
    (read : readLines number ⟨⟨namespaces, []⟩, false, none⟩ lines = .ok after) :
    after.tree.All Text.Plain Text.Plain := by
  have none : (Tree.mk namespaces []).All Text.Plain Text.Plain := by simp [Tree.All, Keyed.values]
  cases lines with
  | nil =>
      cases read
      exact none
  | cons first rest =>
      obtain ⟨here, later⟩ := List.forall_mem_cons.mp feeds
      obtain ⟨middle, opened, below⟩ := readLines_cons read
      have settled := escaped_readLine opened (.inr (start first rfl))
      have run := readLines_induction (fun reading => reading.tree.All Text.Plain Text.Plain ∧
          reading.escaped = false ∧ reading.current.isSome)
        (fun reading after text listed before step => ?_)
        ⟨all_readLine none spells_plain here opened, settled⟩ below
      · exact run.1
      · obtain ⟨all, raw, current⟩ := before
        have kept := escaped_readLine step (.inl current)
        exact ⟨all_readLine all (raw ▸ spells_plain) (later text listed) step, raw ▸ kept⟩

end Tiny.Reading

theorem Tiny.plain_readHeader {line : List Char} {namespaces : List String} (feed : '\n' ∉ line)
    (read : readHeader line = .ok namespaces) : ∀ name ∈ namespaces, Text.Plain name := by
  unfold readHeader at read
  split at read
  · rename_i format version number first rest split
    split at read
    · cases read
      intro name member
      obtain ⟨part, there, rfl⟩ := List.mem_map.mp member
      have listed : part ∈ line.splitOn '\t' := by
        rw [split]
        exact .tail _ (.tail _ (.tail _ there))
      obtain ⟨tab, inside⟩ := Text.mem_splitOn listed
      rw [Text.Plain, String.toList_ofList]
      exact ⟨tab, fun member => feed (inside member)⟩
    · cases read
  · cases read

namespace RenameTable

variable {table : RenameTable}

/-- What mapping data with the rows of a table says of the texts of the table. -/
theorem all_of_lists {tree : Tree} (lists : tree.Lists table)
    (all : tree.All Text.Plain Text.Plain) : table.All Text.Plain Text.Plain Text.Plain := by
  rintro ⟨name, entry⟩ listed
  have row := (Tree.all_iff.mp all) (name, entry.rowAs some name)
    (lists.classes.mem_iff.mpr (List.mem_map.mpr ⟨_, listed, rfl⟩))
  refine ⟨row.names name (by simp [ClassRename.rowAs]),
    row.names entry.mapped (by simp [ClassRename.rowAs]), fun kind member there => ?_⟩
  have inside : member.rowAs some ∈ (entry.rowAs some name).members kind := by
    cases kind <;> exact List.mem_map.mpr ⟨member, there, rfl⟩
  have well := row.members kind _ inside
  exact ⟨well.desc, well.names member.name (by simp [MemberRename.rowAs]),
    well.names member.mapped (by simp [MemberRename.rowAs])⟩

theorem spelt_of_parse {origin : String} {tree : Tree}
    (parsed : Tree.parse origin table.toTiny = .ok tree) (lists : tree.Lists table) :
    table.Spelt Text.Plain := by
  obtain ⟨header, rest, namespaces, reading, split, headed, read, rfl⟩ := Tree.exists_of_parse parsed
  have feeds : ∀ line ∈ header :: rest, '\n' ∉ line := fun line member =>
    Text.not_mem_of_mem_lines (split ▸ member)
  have kept := Reading.readLines_induction
    (fun reading => reading.tree.namespaces = namespaces)
    (fun _ _ _ _ before step => (Reading.namespaces_readLine step).trans before) rfl read
  have plain := Tiny.plain_readHeader (feeds header List.mem_cons_self) headed
  rw [← kept, lists.namespaces] at plain
  obtain ⟨source, target, -⟩ := List.forall_mem_cons.mp plain |>.imp_right List.forall_mem_cons.mp
  refine ⟨source, target, all_of_lists lists (Reading.plain_readLines
    (fun line member => feeds line (.tail _ member)) ?_ read)⟩
  -- The header is known to end where it was ended, so below it comes the line of a class.
  rw [toList_toTiny, List.flatMap_cons, List.append_assoc, List.singleton_append,
    Text.lines_cons (feed_not_mem_header source target), List.cons.injEq] at split
  rw [← split.2]
  cases classes : table.sortedClasses with
  | nil => simp [body, classes, Text.lines_nil]
  | cons pair more =>
      obtain ⟨later, text⟩ : ∃ later,
          table.body.flatMap (fun line => line.chars ++ ['\n']) = 'c' :: later := by
        simp [body, classes, ClassRename.lines, ClassRename.line, Line.chars,
          List.intercalate_cons_cons]
      obtain ⟨line, rest, first⟩ := Text.lines_of_head (c := 'c') (by decide) (by decide) later
      rw [text, first]
      rintro _ ⟨⟩
      exact ⟨'c', rfl, by decide⟩

/-- A table can be printed and read again if its texts have no tab and no line feed, and those
at ends of lines no carriage return for their last character. -/
abbrev Writable (table : RenameTable) : Prop := table.Spelt Text.Closing

theorem readBack_eq_some_iff {name : String} (named : name ≠ "") :
    readBack name = some name ↔ name.toList.getLast? ≠ some '\r' := by
  rw [← Text.worn_eq_iff, Text.worn, readBack]
  cases empty : (Text.dropReturn name.toList).isEmpty with
  | false => simp
  | true =>
      rw [List.isEmpty_iff.mp empty]
      simp [Ne.symm named]

theorem rowAs_readBack_eq_iff (name : String) {entry : ClassRename}
    (plain : entry.All Text.Plain Text.Plain Text.Plain)
    (names : entry.Named) :
    entry.rowAs readBack name = entry.rowAs some name ↔
      entry.All Text.Plain Text.Plain Text.Closing := by
  have members (kind : MemberKind) :
      (entry.members kind).map (·.rowAs readBack) = (entry.members kind).map (·.rowAs some) ↔
        ∀ member ∈ entry.members kind, member.All Text.Plain Text.Plain Text.Closing := by
    rw [List.map_inj_left]
    refine forall₂_congr fun member listed => ?_
    have well := plain.members kind member listed
    have named := (names.members kind member listed).mapped
    simp only [MemberRename.rowAs, MemberRow.mk.injEq, true_and, List.cons.injEq, and_true,
      readBack_eq_some_iff named]
    exact ⟨fun last => ⟨well.desc, well.name, well.mapped, last⟩, fun all => all.mapped.2⟩
  have fields := members .field
  have methods := members .method
  simp only [ClassRename.members] at fields methods
  simp only [ClassRename.rowAs, ClassRow.mk.injEq, List.cons.injEq, true_and, and_true,
    readBack_eq_some_iff names.mapped, fields, methods]
  constructor
  · rintro ⟨last, fields, methods⟩
    exact ⟨⟨plain.mapped, last⟩, fun kind => by cases kind <;> assumption⟩
  · intro all
    exact ⟨all.mapped.2, all.members .field, all.members .method⟩

/-- What is read of a table is the table, if no name at the end of a line lost a return. -/
theorem Spelt.lists_iff (spelt : table.Spelt Text.Plain)
    (names : table.Named) (distinct : table.classes.keys.Nodup) :
    Tree.Lists ⟨[table.source, Text.worn table.target],
      table.sortedClasses.map fun (name, entry) => (name, entry.rowAs readBack name)⟩ table ↔
        table.Writable := by
  have sorted := sortedClasses_perm table
  have closing (pair : String × ClassRename) (listed : pair ∈ table.classes) :=
    rowAs_readBack_eq_iff pair.1 (spelt.texts pair listed).2 (names pair listed).2
  constructor
  · intro lists
    have last := (List.cons.inj (List.cons.inj lists.namespaces).2).1
    refine ⟨spelt.source, ⟨spelt.target, Text.worn_eq_iff.mp last⟩, ?_⟩
    rintro ⟨name, entry⟩ listed
    refine ⟨(spelt.texts _ listed).1, (closing _ listed).mp ?_⟩
    -- The row that is read stands for an entry of the table, and no other has its name.
    have there := lists.classes.mem_iff.mp
      (List.mem_map.mpr ⟨(name, entry), sorted.mem_iff.mpr listed, rfl⟩)
    obtain ⟨⟨other, rename⟩, known, same⟩ := List.mem_map.mp there
    simp only [Prod.mk.injEq] at same
    obtain ⟨rfl, row⟩ := same
    have entries := (Keyed.get?_of_mem distinct known).symm.trans (Keyed.get?_of_mem distinct listed)
    rw [Option.some.inj entries] at row
    exact row.symm
  · intro writable
    refine ⟨by rw [Text.worn_eq_iff.mpr writable.target.2], ?_⟩
    have rows : (table.sortedClasses.map fun (name, entry) => (name, entry.rowAs readBack name)) =
        table.sortedClasses.map fun (name, entry) => (name, entry.rowAs some name) := by
      refine List.map_congr_left fun pair listed => ?_
      have member := sorted.mem_iff.mp listed
      exact congrArg (Prod.mk pair.1) ((closing pair member).mpr (writable.texts pair member).2)
    rw [rows]
    exact sorted.map _

theorem Writable.plain (writable : table.Writable) : table.Spelt Text.Plain where
  source := writable.source
  target := writable.target.1
  texts pair listed := by
    obtain ⟨name, entry⟩ := writable.texts pair listed
    refine ⟨name, entry.mapped.1, fun kind member there => ?_⟩
    have well := entry.members kind member there
    exact ⟨well.desc, well.name, well.mapped.1⟩

end RenameTable

/-- The table between two namespaces is printed as text from which its classes and their members
are read again, whatever graph and mapping data it was made from, exactly if it is writable. -/
theorem Catalog.Serves.reads_back_iff {graph : Graph} {tree : Tree} {source target : Nat}
    {table : RenameTable} (built : tree.Built) (served : Serves graph tree source target table)
    (origin : String) :
    (∃ read, Tree.parse origin table.toTiny = .ok read ∧ read.Lists table) ↔ table.Writable := by
  obtain ⟨names, distinct⟩ := all_makeTable (Catalog.serves_iff.mp served) built.named
  constructor
  · rintro ⟨read, parsed, lists⟩
    have spelt := RenameTable.spelt_of_parse parsed lists
    rw [RenameTable.parse_toTiny spelt distinct names, Except.ok.injEq] at parsed
    exact (spelt.lists_iff names distinct).mp (parsed ▸ lists)
  · intro writable
    exact ⟨_, RenameTable.parse_toTiny writable.plain distinct names origin,
      (writable.plain.lists_iff names distinct).mpr writable⟩

namespace Tiny.Tree

/-- A backslash and a return inside a line stay. -/
def keptText : String :=
  "tiny\t2\t0\ta\tb\n\tescaped-names\nc\tP\tQ\\\\n\n\tf\tI\tx\\r\ty\n"

def keptTree : Tree :=
  ⟨["a", "b"], [("P", ⟨[some "P", some "Q\\n"], [⟨"I", [some "x\r", some "y"]⟩], []⟩)]⟩

def keptTable : RenameTable := ⟨"a", "b", [("P", ⟨"Q\\n", [⟨"x\r", "I", "y"⟩], []⟩)]⟩

end Tiny.Tree

theorem Catalog.Serves.reads_back_iff_kept :
    Tree.parse "m.tiny" Tree.keptText = .ok Tree.keptTree ∧
      Serves Graph.pair Tree.keptTree 0 1 Tree.keptTable ∧
        ∃ read, Tree.parse "back.tiny" Tree.keptTable.toTiny = .ok read ∧
          read.Lists Tree.keptTable := by
  have parsed : Tree.parse "m.tiny" Tree.keptText = .ok Tree.keptTree := by decide +kernel
  have served : Serves Graph.pair Tree.keptTree 0 1 Tree.keptTable :=
    Catalog.serves_iff.mpr (by decide +kernel)
  have back := reads_back_iff (.parsed parsed) served "back.tiny"
  exact ⟨parsed, served, back.mpr (by decide +kernel)⟩

/-- Names that are not read back: with a tab in it, and with a return at the end of the line. -/
def lostNames : List (String × String) :=
  [("tiny\t2\t0\ta\tb\n\tescaped-names\nc\tP\tQ\\tR\n", "Q\tR"),
    ("tiny\t2\t0\ta\tb\nc\tP\tQ\r\r\n", "Q\r")]

theorem Catalog.Serves.lost_in_print :
    Graph.build [⟨"a", false, []⟩, ⟨"b", false, ["a"]⟩] = .ok Graph.pair ∧
      ∀ lost ∈ lostNames,
        let tree : Tree := ⟨["a", "b"], [("P", ⟨[some "P", some lost.2], [], []⟩)]⟩
        let table : RenameTable := ⟨"a", "b", [("P", ⟨lost.2, [], []⟩)]⟩
        Tree.parse "m.tiny" lost.1 = .ok tree ∧ Serves Graph.pair tree 0 1 table ∧
          ¬ ∃ read, Tree.parse "back.tiny" table.toTiny = .ok read ∧ read.Lists table := by
  refine ⟨Graph.build_pair, ?_⟩
  simp only [lostNames, List.forall_mem_cons, List.not_mem_nil, false_implies, implies_true,
    and_true]
  refine ⟨⟨by decide +kernel, Catalog.serves_iff.mpr (by decide +kernel), ?tab⟩,
    by decide +kernel, Catalog.serves_iff.mpr (by decide +kernel), ?back⟩
  case tab =>
    rintro ⟨read, parsed, -⟩
    have refused : Tree.parse "back.tiny"
        (RenameTable.toTiny ⟨"a", "b", [("P", ⟨"Q\tR", [], []⟩)]⟩) =
          .error (.mappingFormat "back.tiny" 2 (.tooManyNames 2 3)) := by decide +kernel
    cases refused.symm.trans parsed
  case back =>
    rintro ⟨read, parsed, lists⟩
    have shorter : Tree.parse "back.tiny"
        (RenameTable.toTiny ⟨"a", "b", [("P", ⟨"Q\r", [], []⟩)]⟩) =
          .ok ⟨["a", "b"], [("P", ⟨[some "P", some "Q"], [], []⟩)]⟩ := by decide +kernel
    cases shorter.symm.trans parsed
    exact absurd lists (by decide +kernel)

end ArchiveRemap
