import ArchiveRemap.Proofs.RenameTable.Texts
import ArchiveRemap.Proofs.Tiny.Line
import ArchiveRemap.Proofs.Tiny.Shape
import ArchiveRemap.Tiny.Printer

/-!
Printed tables. A table is printed with its texts as they are, a line for each class and each
member. If no text has a tab or a line feed in it, reading the lines brings back every row but
for what the ends of lines lose.
-/

namespace ArchiveRemap

open Tiny

/-! What is printed, line by line. -/

def MemberRename.line (kind : MemberKind) (member : MemberRename) : Line :=
  ⟨1, [[kind.mark], member.desc.toList, member.name.toList] ++ [member.mapped.toList]⟩

def ClassRename.line (name : String) (entry : ClassRename) : Line :=
  ⟨0, [['c'], name.toList] ++ [entry.mapped.toList]⟩

def ClassRename.lines (name : String) (entry : ClassRename) : List Line :=
  entry.line name ::
    (entry.fields.map (MemberRename.line .field) ++ entry.methods.map (MemberRename.line .method))

namespace RenameTable

variable {table : RenameTable}

def header (table : RenameTable) : Line :=
  ⟨0, ["tiny".toList, ['2'], ['0'], table.source.toList] ++ [table.target.toList]⟩

/-- The lines below the header. -/
def body (table : RenameTable) : List Line :=
  table.sortedClasses.flatMap fun (name, entry) => entry.lines name

theorem toList_memberLine (kind : MemberKind) (member : MemberRename) :
    (memberLine (String.singleton kind.mark) member).toList =
      (member.line kind).chars ++ ['\n'] := by
  simp [memberLine, MemberRename.line, Line.chars, List.intercalate_cons_cons]

theorem toList_classText (name : String) (entry : ClassRename) :
    (classText name entry).toList =
      (entry.lines name).flatMap fun line => line.chars ++ ['\n'] := by
  have field := toList_memberLine .field
  have method := toList_memberLine .method
  rw [classText, ClassRename.lines, List.flatMap_cons, List.flatMap_append, List.flatMap_map,
    List.flatMap_map]
  simp only [← field, ← method]
  simp [ClassRename.line, Line.chars, List.intercalate_cons_cons, String.toList_join,
    List.flatMap_map, MemberKind.mark]

theorem toList_toTiny : table.toTiny.toList =
    (table.header :: table.body).flatMap fun line => line.chars ++ ['\n'] := by
  rw [toTiny, List.flatMap_cons, body, List.flatMap_assoc]
  simp [header, Line.chars, List.intercalate_cons_cons, String.toList_join, List.flatMap_map,
    toList_classText]

end RenameTable

/-! What is read. -/

/-- A member as a row of two columns. What the second one has for a name, `back` says. -/
def MemberRename.rowAs (back : String → Option String) (member : MemberRename) : MemberRow :=
  ⟨member.desc, [some member.name, back member.mapped]⟩

def ClassRename.rowAs (back : String → Option String) (name : String) (entry : ClassRename) :
    ClassRow :=
  ⟨[some name, back entry.mapped], entry.fields.map (·.rowAs back),
    entry.methods.map (·.rowAs back)⟩

/-- What a name at the end of a line is read as. -/
def readBack (name : String) : Option String :=
  let part := Text.dropReturn name.toList
  if part.isEmpty then none else some (String.ofList part)

/-- The texts of a table have no tab and no line feed, and those at ends of lines also have a
property. -/
structure RenameTable.Spelt (last : String → Prop) (table : RenameTable) : Prop where
  source : Text.Plain table.source
  target : last table.target
  texts : table.All Text.Plain Text.Plain last

instance {last : String → Prop} [DecidablePred last] : DecidablePred (RenameTable.Spelt last) :=
  fun table => decidable_of_iff
    (Text.Plain table.source ∧ last table.target ∧ table.All Text.Plain Text.Plain last)
    ⟨fun spelt => ⟨spelt.1, spelt.2.1, spelt.2.2⟩,
      fun spelt => ⟨spelt.source, spelt.target, spelt.texts⟩⟩

/-- Mapping data with the two namespaces of a table that has its classes, each with the same
fields and methods. -/
structure Tiny.Tree.Lists (tree : Tree) (table : RenameTable) : Prop where
  namespaces : tree.namespaces = [table.source, table.target]
  classes : tree.classes.Perm
    (table.classes.map fun (name, entry) => (name, entry.rowAs some name))

instance {tree : Tree} {table : RenameTable} : Decidable (tree.Lists table) :=
  decidable_of_iff (tree.namespaces = [table.source, table.target] ∧ tree.classes.Perm
      (table.classes.map fun (name, entry) => (name, entry.rowAs some name)))
    ⟨fun lists => ⟨lists.1, lists.2⟩, fun lists => ⟨lists.namespaces, lists.classes⟩⟩

namespace Tiny

theorem readRow_pair {name : List Char} (named : name ≠ []) (last : List Char) :
    readRow 2 false [name, last] =
      .ok [some (String.ofList name), if last.isEmpty then none else some (String.ofList last)] := by
  simp [readRow, Row.widen, partText, named]

theorem ClassRow.foldl_addMember (kind : MemberKind) (entry : ClassRow) (members : List MemberRow) :
    members.foldl (fun done member => done.addMember kind member) entry =
      match kind with
      | .field => { entry with fields := entry.fields ++ members }
      | .method => { entry with methods := entry.methods ++ members } := by
  induction members generalizing entry with
  | nil => cases kind <;> simp
  | cons member rest ih =>
      rw [List.foldl_cons, ih]
      cases kind <;> simp [ClassRow.addMember]

namespace Reading

/-- Lines that are read one after the other, each without a fault. -/
inductive Reads : Reading → List (List Char) → Reading → Prop where
  | nil (reading : Reading) : Reads reading [] reading
  | cons {reading middle after : Reading} {text : List Char} {lines : List (List Char)}
      (first : reading.readLine text = .ok middle) (rest : Reads middle lines after) :
      Reads reading (text :: lines) after

variable {reading middle after : Reading} {lines more : List (List Char)}

theorem Reads.append (first : Reads reading lines middle) (rest : Reads middle more after) :
    Reads reading (lines ++ more) after := by
  induction first with
  | nil => exact rest
  | cons read _ ih => exact .cons read (ih rest)

theorem Reads.readLines (reads : Reads reading lines after) (number : Nat) :
    reading.readLines number lines = .ok after := by
  induction reads generalizing number with
  | nil => rfl
  | cons read _ ih =>
      rw [Reading.readLines, read]
      exact ih (number + 1)

section Two

variable {namespaces : List String} (two : namespaces.length = 2)
  {before : Keyed String ClassRow} {name : String} (fresh : name ∉ before.keys)
include two

theorem readLine_class (before : Keyed String ClassRow) (current : Option String)
    {entry : ClassRename} (plain : Text.Plain name)
    (named : name ≠ "") (given : Text.Plain entry.mapped) :
    readLine ⟨⟨namespaces, before⟩, false, current⟩ (Text.dropReturn (entry.line name).chars) =
      .ok ⟨⟨namespaces, before.put name ⟨[some name, readBack entry.mapped], [], []⟩⟩, false,
        some name⟩ := by
  have tabs : ∀ part ∈ ['c'] :: [name.toList], '\t' ∉ part := by simpa using plain.1
  have parts := Line.ofText_printed 0 tabs given.1
  have ink : Text.allBlank (Text.dropReturn (Line.chars
      ⟨0, ['c'] :: [name.toList] ++ [entry.mapped.toList]⟩)) = false :=
    Line.allBlank_printed 0 _ _ (by decide)
  have row := readRow_pair (mt String.toList_eq_nil_iff.mp named)
    (Text.dropReturn entry.mapped.toList)
  rw [readLine, ClassRename.line, ink, if_neg Bool.false_ne_true, parts]
  simp [openClass, width, two, row, Line.kind, bind, Except.bind, Row.firstName, readBack]

include fresh

theorem readLine_member {kind : MemberKind} {entry : ClassRow} {member : MemberRename}
    (named : member.name ≠ "") (plain : member.All Text.Plain Text.Plain Text.Plain) :
    readLine ⟨⟨namespaces, before ++ [(name, entry)]⟩, false, some name⟩
        (Text.dropReturn (member.line kind).chars) =
      .ok ⟨⟨namespaces, before ++ [(name, entry.addMember kind (member.rowAs readBack))]⟩, false,
        some name⟩ := by
  have tabs : ∀ part ∈ [kind.mark] :: [member.desc.toList, member.name.toList], '\t' ∉ part := by
    have mark : '\t' ≠ kind.mark := by cases kind <;> decide
    simpa [mark] using ⟨plain.desc.1, plain.name.1⟩
  have parts := Line.ofText_printed 1 tabs plain.mapped.1
  have ink : Text.allBlank (Text.dropReturn (Line.chars
      ⟨1, [kind.mark] :: [member.desc.toList, member.name.toList] ++ [member.mapped.toList]⟩)) =
        false := Line.allBlank_printed 1 _ _ (by cases kind <;> decide)
  have row := readRow_pair (mt String.toList_eq_nil_iff.mp named)
    (Text.dropReturn member.mapped.toList)
  have known : (before ++ [(name, entry)]).get? name = some entry := by
    rw [Keyed.get?_append, Keyed.get?_eq_none_iff.mpr fresh]
    simp [Keyed.get?]
  have placed (made : ClassRow) : Keyed.put name made (before ++ [(name, entry)]) =
      before ++ [(name, made)] := by
    rw [Keyed.put_append fresh, Keyed.put, if_pos rfl]
  rw [readLine, MemberRename.line, ink, if_neg Bool.false_ne_true, parts]
  cases kind <;>
    simp [addMember, MemberKind.mark, width, two, row, Line.kind, bind, Except.bind, readBack,
      partText, known, placed, MemberRename.rowAs]

theorem reads_members (kind : MemberKind) {members : List MemberRename} (entry : ClassRow)
    (named : ∀ member ∈ members, member.name ≠ "")
    (plain : ∀ member ∈ members, member.All Text.Plain Text.Plain Text.Plain) :
    Reads ⟨⟨namespaces, before ++ [(name, entry)]⟩, false, some name⟩
      (members.map fun member => Text.dropReturn (member.line kind).chars)
      ⟨⟨namespaces, before ++ [(name, (members.map (·.rowAs readBack)).foldl
        (fun done member => done.addMember kind member) entry)]⟩, false, some name⟩ := by
  induction members generalizing entry with
  | nil => exact .nil _
  | cons member rest ih =>
      obtain ⟨first, later⟩ := List.forall_mem_cons.mp named
      obtain ⟨here, others⟩ := List.forall_mem_cons.mp plain
      exact .cons (readLine_member two fresh first here) (ih _ later others)

/-- A class and its members come behind the classes before. -/
theorem reads_class {current : Option String} {entry : ClassRename}
    (plain : Text.Plain name) (named : name ≠ "")
    (texts : entry.All Text.Plain Text.Plain Text.Plain)
    (names : entry.Named) :
    Reads ⟨⟨namespaces, before⟩, false, current⟩
      ((entry.lines name).map fun line => Text.dropReturn line.chars)
      ⟨⟨namespaces, before ++ [(name, entry.rowAs readBack name)]⟩, false, some name⟩ := by
  have members (kind : MemberKind) (made : ClassRow) :=
    reads_members two fresh kind made
      (fun member listed => (names.members kind member listed).name) (texts.members kind)
  have opened := readLine_class two before current plain named texts.mapped
  have fields := members .field ⟨[some name, readBack entry.mapped], [], []⟩
  have methods := members .method
    ⟨[some name, readBack entry.mapped], entry.fields.map (·.rowAs readBack), []⟩
  rw [Keyed.put_of_fresh fresh] at opened
  rw [ClassRow.foldl_addMember] at fields methods
  rw [ClassRename.lines, List.map_cons, List.map_append, List.map_map, List.map_map]
  exact .cons opened (fields.append methods)

end Two

/-- The classes of a body are read one behind the other. -/
theorem reads_classes {namespaces : List String} (two : namespaces.length = 2)
    {before : Keyed String ClassRow} (current : Option String)
    {classes : List (String × ClassRename)}
    (distinct : (before.keys ++ Keyed.keys classes).Nodup)
    (texts : ∀ pair ∈ classes, Text.Plain pair.1 ∧ pair.2.All Text.Plain Text.Plain Text.Plain)
    (names : ∀ pair ∈ classes, pair.1 ≠ "" ∧ pair.2.Named) :
    ∃ last, Reads ⟨⟨namespaces, before⟩, false, current⟩
      ((classes.flatMap fun (name, entry) => entry.lines name).map fun line =>
        Text.dropReturn line.chars)
      ⟨⟨namespaces, before ++ classes.map fun (name, entry) => (name, entry.rowAs readBack name)⟩,
        false, last⟩ := by
  induction classes generalizing before current with
  | nil =>
      refine ⟨current, ?_⟩
      rw [List.map_nil, List.append_nil]
      exact .nil _
  | cons pair rest ih =>
      obtain ⟨name, entry⟩ := pair
      obtain ⟨⟨plain, entryTexts⟩, laterTexts⟩ := List.forall_mem_cons.mp texts
      obtain ⟨⟨named, entryNames⟩, laterNames⟩ := List.forall_mem_cons.mp names
      have fresh : name ∉ before.keys := fun member =>
        (List.nodup_append.mp distinct).2.2 name member name List.mem_cons_self rfl
      have moved : (Keyed.keys (before ++ [(name, entry.rowAs readBack name)]) ++
          Keyed.keys rest).Nodup := by
        simpa [Keyed.keys] using distinct
      obtain ⟨last, others⟩ := ih (some name) moved laterTexts laterNames
      refine ⟨last, ?_⟩
      rw [List.flatMap_cons, List.map_append, List.map_cons]
      rw [List.append_assoc, List.singleton_append] at others
      exact (reads_class two fresh plain named entryTexts entryNames).append others

end Reading

theorem readHeader_printed {table : RenameTable} (source : Text.Plain table.source)
    (target : Text.Plain table.target) :
    readHeader (Text.dropReturn table.header.chars) =
      .ok [table.source, Text.worn table.target] := by
  have worn : '\t' ∉ Text.dropReturn table.target.toList := fun inside =>
    target.1 (Text.dropReturn_subset _ inside)
  have tabs : ∀ part ∈ ["tiny".toList, ['2'], ['0'], table.source.toList] ++
      [Text.dropReturn table.target.toList], '\t' ∉ part := by
    simpa [worn] using source.1
  have split := List.splitOn_intercalate '\t' tabs (List.cons_ne_nil _ _)
  rw [RenameTable.header, Line.dropReturn_chars (List.cons_ne_nil _ _), Line.chars]
  rw [List.replicate_zero, List.nil_append, readHeader, split]
  simp [Text.worn]

end Tiny

namespace RenameTable

variable {table : RenameTable}

theorem sortedClasses_perm (table : RenameTable) : table.sortedClasses.Perm table.classes :=
  List.mergeSort_perm _ _

theorem feed_not_mem_header (source : Text.Plain table.source) (target : Text.Plain table.target) :
    '\n' ∉ table.header.chars := by
  apply Line.feed_not_mem_chars
  simpa [header] using ⟨source.2, target.2⟩

theorem Spelt.feed_not_mem (spelt : table.Spelt Text.Plain) :
    ∀ line ∈ table.header :: table.body, '\n' ∉ line.chars := by
  refine List.forall_mem_cons.mpr
    ⟨feed_not_mem_header spelt.source spelt.target, fun line member => ?_⟩
  obtain ⟨⟨name, entry⟩, listed, there⟩ := List.mem_flatMap.mp member
  obtain ⟨plain, texts⟩ := spelt.texts _ ((sortedClasses_perm table).mem_iff.mp listed)
  have members (kind : MemberKind) (inside : line ∈ (entry.members kind).map
      (MemberRename.line kind)) : ∀ part ∈ line.parts, '\n' ∉ part := by
    obtain ⟨rename, here, rfl⟩ := List.mem_map.mp inside
    have well := texts.members kind rename here
    have mark : '\n' ≠ kind.mark := by cases kind <;> decide
    simpa [MemberRename.line, mark] using ⟨well.desc.2, well.name.2, well.mapped.2⟩
  apply Line.feed_not_mem_chars
  rcases List.mem_cons.mp there with rfl | inside
  · simpa [ClassRename.line] using ⟨plain.2, texts.mapped.2⟩
  · rcases List.mem_append.mp inside with field | method
    · exact members .field field
    · exact members .method method

/-- A printed table is read as it is, but for what the ends of lines lose. -/
theorem parse_toTiny (spelt : table.Spelt Text.Plain) (distinct : table.classes.keys.Nodup)
    (names : table.Named) (origin : String) :
    Tree.parse origin table.toTiny = .ok ⟨[table.source, Text.worn table.target],
      table.sortedClasses.map fun (name, entry) => (name, entry.rowAs readBack name)⟩ := by
  have lines : Text.lines table.toTiny.toList =
      (table.header :: table.body).map fun line => Text.dropReturn line.chars := by
    have lines := Text.lines_flatMap (List.forall_mem_map.mpr spelt.feed_not_mem)
    rwa [List.flatMap_map, List.map_map, ← toList_toTiny] at lines
  have sorted := sortedClasses_perm table
  have keys : (Keyed.keys ([] : Keyed String ClassRow) ++ Keyed.keys table.sortedClasses).Nodup :=
    (sorted.map Prod.fst).nodup_iff.mpr distinct
  have two : [table.source, Text.worn table.target].length = 2 := rfl
  obtain ⟨last, reads⟩ := Reading.reads_classes two none keys
    (fun pair listed => spelt.texts pair (sorted.mem_iff.mp listed))
    (fun pair listed => names pair (sorted.mem_iff.mp listed))
  rw [List.nil_append] at reads
  rw [Tree.parse, lines, List.map_cons, readFile, readHeader_printed spelt.source spelt.target]
  dsimp only
  rw [body, reads.readLines]
  rfl

end RenameTable

end ArchiveRemap
