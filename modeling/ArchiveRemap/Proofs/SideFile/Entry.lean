import ArchiveRemap.Archive.Renaming
import ArchiveRemap.Proofs.Tiny.Line

/-!
Side files against the classes that they speak of. An entry of an access widener, and one of an
access transformer for a method, comes out with the names that the renamed class and its member
have. A field of an access transformer has no descriptor: it is looked up by its name in the
rows of its own class, so it comes out right where the first of them is of its type, and where
there is none, if no supertype renames the field.
-/

namespace ArchiveRemap

open Mixin (Renames)

/-! Lines and their words. -/

/-- The words of a line and its comment. -/
def lineParts (line : List Char) : List String × Option (List Char) :=
  (wordTexts (cutComment line).1, (cutComment line).2)

/-- A word as it may stand in a line. -/
structure PlainWord (word : String) : Prop where
  nonempty : word.toList ≠ []
  solid : ∀ c ∈ word.toList, Text.isBlank c = false
  unmarked : '#' ∉ word.toList

theorem words_append_blank {mark : Char} (blank : Text.isBlank mark = true)
    (before after : List Char) :
    Text.words (before ++ mark :: after) = Text.words before ++ Text.words after := by
  rw [Text.words, List.splitOnP_append_cons before after blank, List.filter_append]
  rfl

theorem PlainWord.words_eq {word : String} (plain : PlainWord word) :
    Text.words word.toList = [word.toList] := by
  rw [Text.words, List.splitOnP_eq_singleton plain.solid]
  simpa using plain.nonempty

theorem words_intercalate {mark : Char} (blank : Text.isBlank mark = true) {words : List String}
    (plain : ∀ word ∈ words, PlainWord word) :
    Text.words ([mark].intercalate (words.map String.toList)) = words.map String.toList := by
  induction words with
  | nil => rfl
  | cons word more ih =>
      obtain ⟨first, others⟩ := List.forall_mem_cons.mp plain
      cases more with
      | nil => rw [List.map_singleton, List.intercalate_singleton, first.words_eq]
      | cons next more =>
          rw [List.map_cons, List.map_cons, List.intercalate_cons_cons, ← List.map_cons,
            List.append_assoc, List.singleton_append, words_append_blank blank, ih others,
            first.words_eq]
          rfl

theorem unmarked_intercalate {mark : Char} (blank : Text.isBlank mark = true)
    {words : List String} (plain : ∀ word ∈ words, PlainWord word) :
    '#' ∉ [mark].intercalate (words.map String.toList) := by
  intro member
  rcases Text.mem_intercalate member with rfl | ⟨text, inside, member⟩
  · cases blank
  · obtain ⟨word, there, rfl⟩ := List.mem_map.mp inside
    exact (plain word there).unmarked member

/-- Any plain words are the words of a line. -/
theorem lineParts_intercalate {mark : Char} (blank : Text.isBlank mark = true)
    {words : List String} (plain : ∀ word ∈ words, PlainWord word) :
    lineParts ([mark].intercalate (words.map String.toList)) = (words, none) := by
  have unmarked := Text.cut_eq_none_iff.mpr (unmarked_intercalate blank plain)
  rw [lineParts, cutComment, unmarked]
  simp only [wordTexts, words_intercalate blank plain, List.map_map]
  simp

/-! Entries. -/

def MemberKind.widenerWord : MemberKind → String
  | .field => "field"
  | .method => "method"

/-- The words of an access widener for a member of a class. -/
def widenerEntry (access : String) (kind : MemberKind) (node : ClassNode) (member : MemberNode) :
    List String :=
  [access, kind.widenerWord, node.name, member.name, member.desc]

/-- The words of an access transformer for a member of a class, and what may stand behind. -/
def transformerEntry (access : String) (kind : MemberKind) (node : ClassNode)
    (member : MemberNode) (more : List String) : List String :=
  access :: ClassName.toDotted node.name ::
    (match kind with
      | .field => member.name
      | .method => member.name ++ member.desc) :: more

/-- A member that an access transformer can name. -/
structure Nameable (kind : MemberKind) (node : ClassNode) (member : MemberNode) : Prop where
  undotted : '.' ∉ node.name.toList
  closed : '(' ∉ member.name.toList
  unstarred : member.name.toList.head? ≠ some '*'
  opens : kind = .method → member.desc.toList.head? = some '('

theorem Widener.renameEntryLines_cons {renamer : Renamer} {line : List Char}
    {words renamed : List String} {comment : Option (List Char)}
    (parts : lineParts line = (words, comment))
    (entry : renameEntryWords renamer words = .ok renamed) (number : Nat)
    (rest : List (List Char)) :
    renameEntryLines renamer number (line :: rest) =
      (renameEntryLines renamer (number + 1) rest).map (joinWords "\t" renamed comment :: ·) := by
  obtain ⟨rfl, rfl⟩ := Prod.mk.inj parts
  rw [renameEntryLines]
  simp only []
  split
  · rename_i none
    rw [none] at entry
    cases entry
  · rw [entry]
    cases renameEntryLines renamer (number + 1) rest <;> rfl

theorem Transformer.renameLine_eq {renamer : Renamer} {line : List Char}
    {word : String} {words : List String} {comment : Option (List Char)}
    (parts : lineParts line = (word :: words, comment)) :
    renameLine renamer line = joinWords " " (renameWords renamer (word :: words)) comment := by
  obtain ⟨read, rfl⟩ := Prod.mk.inj parts
  rw [renameLine]
  simp only [read]

theorem ClassName.ofDotted_toDotted {name : String} (plain : '.' ∉ name.toList) :
    ofDotted (toDotted name) = name := by
  apply String.toList_injective
  rw [ofDotted, toDotted, String.toList_ofList, String.toList_ofList, Text.swap, Text.swap,
    List.map_map]
  have same : ∀ c ∈ name.toList, ((fun c => if c = '.' then '/' else c) ∘
      fun c => if c = '/' then '.' else c) c = id c := by
    intro c member
    have other : c ≠ '.' := fun same => plain (same ▸ member)
    by_cases slash : c = '/' <;> simp [slash, other]
  rw [List.map_congr_left same, List.map_id]

namespace Transformer

variable {renamer : Renamer} {owner name desc : String}

/-- A member with a descriptor is cut at its parenthesis. -/
theorem renameMember_method (closed : '(' ∉ name.toList) (unstarred : name.toList.head? ≠ some '*')
    (opens : desc.toList.head? = some '(') :
    renameMember renamer owner (name ++ desc) =
      renamer.mapMember .method owner name desc ++ renamer.mapDesc desc := by
  obtain ⟨rest, chars⟩ := List.head?_eq_some_iff.mp opens
  have word : (name ++ desc).toList = name.toList ++ '(' :: rest := by
    rw [String.toList_append, chars]
  have plain : (name ++ desc).toList.head? ≠ some '*' := by
    rw [word]
    cases cs : name.toList with
    | nil => simp
    | cons c more => simpa [cs] using unstarred
  have spelled : String.ofList ('(' :: rest) = desc := by
    rw [← chars, String.ofList_toList]
  rw [renameMember, if_neg plain, word, Text.cut_append closed]
  simp only [spelled, String.ofList_toList]

theorem renameMember_field (closed : '(' ∉ name.toList)
    (unstarred : name.toList.head? ≠ some '*') :
    renameMember renamer owner name =
      (renamer.table.mapFieldNamed? owner name).getD name := by
  rw [renameMember, if_neg unstarred, Text.cut_eq_none_iff.mpr closed]

end Transformer

/-! Rows of one name. -/

/-- The rows of a class for fields of one name, whatever their types. -/
def RenameTable.fieldsNamed (table : RenameTable) (owner name : String) : List MemberRename :=
  ((table.class? owner).elim [] (·.fields)).filter (·.name = name)

namespace RenameTable

variable {table : RenameTable} {owner name desc : String}

theorem mapFieldNamed?_eq :
    table.mapFieldNamed? owner name = (table.fieldsNamed owner name).head?.map (·.mapped) := by
  unfold mapFieldNamed? fieldsNamed
  cases table.class? owner with
  | none => rfl
  | some entry =>
      simp only [Option.bind_eq_bind, Option.bind_some, Option.elim_some, List.head?_filter]
      cases entry.fields.find? (·.name = name) <;> rfl

theorem mapMember?_field_eq : table.mapMember? .field owner name desc =
    ((table.fieldsNamed owner name).find? (·.desc = desc)).map (·.mapped) := by
  unfold mapMember? fieldsNamed
  cases table.class? owner with
  | none => rfl
  | some entry =>
      simp only [Option.bind_eq_bind, Option.bind_some, Option.elim_some, List.find?_filter,
        ClassRename.members, Bool.decide_and, Bool.decide_eq_true]
      exact Option.map_eq_bind.symm

end RenameTable

/-- A field that its name alone leads to: the first row of its class with this name is of its
type, or there is none and no supertype has another name for it. -/
structure Renamer.FoundByName (renamer : Renamer) (owner name desc : String) : Prop where
  typed : ∀ row ∈ (renamer.table.fieldsNamed owner name).head?, row.desc = desc
  own : renamer.table.fieldsNamed owner name ≠ [] ∨
    (renamer.inherited? .field owner name desc).getD name = name

/-- Where the first row is of its type, a field is found by its name as it is found by its type
too, unless there is no row and a supertype renames it. -/
theorem Renamer.fieldNamed_eq_iff {renamer : Renamer} {owner name desc : String}
    (typed : ∀ row ∈ (renamer.table.fieldsNamed owner name).head?, row.desc = desc) :
    (renamer.table.mapFieldNamed? owner name).getD name =
        renamer.mapMember .field owner name desc ↔
      renamer.table.fieldsNamed owner name ≠ [] ∨
        (renamer.inherited? .field owner name desc).getD name = name := by
  have kept : keepsName .field name = false := rfl
  rw [mapMember, kept, RenameTable.mapFieldNamed?_eq]
  cases rows : renamer.table.fieldsNamed owner name with
  | nil => simp [eq_comm]
  | cons row rest =>
      have same : row.desc = desc := typed row (by rw [rows]; rfl)
      have found : renamer.inherited? .field owner name desc = some row.mapped := by
        rw [inherited?, RenameTable.mapMember?_field_eq, rows]
        simp [same]
      simp [found]

/-! Entries and what the class makes of the member. -/

section Follow

variable {renamer : Renamer} {renames : Renames} {node : ClassNode} {kind : MemberKind}
  {member : MemberNode}

theorem name_rename_of_unnamed
    (unnamed : renames.name? kind node.name member.name member.desc = none) :
    (member.rename renamer renames kind node.name).name =
      renamer.mapMember kind node.name member.name member.desc := by
  rw [MemberNode.rename, unnamed, Option.getD_none]

theorem renameEntryWords_widenerEntry
    (unnamed : renames.name? kind node.name member.name member.desc = none) {access : String}
    (known : Widener.isAccess access = true) :
    Widener.renameEntryWords renamer (widenerEntry access kind node member) =
      .ok (widenerEntry access kind (node.rename renamer renames)
        (member.rename renamer renames kind node.name)) := by
  rw [widenerEntry, widenerEntry, name_rename_of_unnamed unnamed]
  change (if !Widener.isAccess access then _ else _) = _
  rw [known]
  cases kind <;> rfl

theorem renameWords_methodEntry
    (unnamed : renames.name? .method node.name member.name member.desc = none)
    (nameable : Nameable .method node member) (access : String) (more : List String) :
    Transformer.renameWords renamer (transformerEntry access .method node member more) =
      transformerEntry access .method (node.rename renamer renames)
        (member.rename renamer renames .method node.name) more := by
  have owner := ClassName.ofDotted_toDotted nameable.undotted
  have found := @Transformer.renameMember_method renamer node.name _ _ nameable.closed
    nameable.unstarred (nameable.opens rfl)
  simp only [transformerEntry, Transformer.renameWords, owner, found,
    name_rename_of_unnamed unnamed]
  rfl

theorem renameWords_fieldEntry (nameable : Nameable .field node member) (access : String)
    (more : List String) :
    Transformer.renameWords renamer (transformerEntry access .field node member more) =
      access :: ClassName.toDotted (renamer.mapClass node.name) ::
        (renamer.table.mapFieldNamed? node.name member.name).getD member.name :: more := by
  have owner := ClassName.ofDotted_toDotted nameable.undotted
  have found := @Transformer.renameMember_field renamer node.name _ nameable.closed
    nameable.unstarred
  simp only [transformerEntry, Transformer.renameWords, owner, found]

/-- A member that no mixin renames has the same new name in its class and in the side files, if
a field is found by its name where an access transformer speaks of it. Otherwise the first row of
its name decides there. -/
theorem side_entries_follow (declared : member ∈ node.members kind)
    (unnamed : renames.name? kind node.name member.name member.desc = none) :
    ∃ renamed ∈ (node.rename renamer renames).members kind,
      renamed = member.rename renamer renames kind node.name ∧
      (∀ access line comment, Widener.isAccess access = true →
        lineParts line = (widenerEntry access kind node member, comment) →
          ∀ number rest, Widener.renameEntryLines renamer number (line :: rest) =
            (Widener.renameEntryLines renamer (number + 1) rest).map
              (joinWords "\t" (widenerEntry access kind (node.rename renamer renames) renamed)
                comment :: ·)) ∧
      (Nameable kind node member → ∀ access more line comment,
        lineParts line = (transformerEntry access kind node member more, comment) →
          ((kind = .field → renamer.FoundByName node.name member.name member.desc) →
            Transformer.renameLine renamer line = joinWords " "
              (transformerEntry access kind (node.rename renamer renames) renamed more)
              comment) ∧
          (kind = .field → ∀ row ∈ (renamer.table.fieldsNamed node.name member.name).head?,
            Transformer.renameLine renamer line = joinWords " "
              (access :: ClassName.toDotted (renamer.mapClass node.name) :: row.mapped :: more)
              comment)) := by
  refine ⟨_, ?_, rfl, ?_, ?_⟩
  · cases kind <;> exact List.mem_map_of_mem declared
  · intro access line comment known parts
    exact Widener.renameEntryLines_cons parts (renameEntryWords_widenerEntry unnamed known)
  · intro nameable access more line comment parts
    have rewritten : Transformer.renameLine renamer line = joinWords " "
        (Transformer.renameWords renamer (transformerEntry access kind node member more))
          comment :=
      Transformer.renameLine_eq parts
    rw [rewritten]
    cases kind with
    | method =>
        constructor
        · intro _
          rw [renameWords_methodEntry unnamed nameable]
        · exact nofun
    | field =>
        rw [renameWords_fieldEntry nameable]
        constructor
        · -- The row that the name finds is the row that the class finds.
          intro findable
          have found := findable rfl
          have byName := (Renamer.fieldNamed_eq_iff found.typed).mpr found.own
          rw [byName, ← name_rename_of_unnamed unnamed]
          rfl
        · intro _ row first
          rw [RenameTable.mapFieldNamed?_eq, Option.mem_def.mp first]
          rfl

end Follow

/-! A class whose members get their new names from its superclass. -/

def parentNode : ClassNode :=
  { name := "P"
    access := 0
    superName := none
    interfaces := []
    annotations := []
    fields := [⟨0, "f", "I", []⟩]
    methods := [⟨0, "m", "()V", []⟩] }

def heirNode : ClassNode := { parentNode with name := "C", superName := some "P" }

def parentTable : RenameTable :=
  ⟨"a", "b", [("P", ⟨"P", [⟨"f", "I", "g"⟩], [⟨"m", "()V", "k"⟩]⟩)]⟩

def heirRenamer : Renamer := ⟨parentTable, .ofNodes [parentNode, heirNode]⟩

theorem ancestors_heir : heirRenamer.hierarchy.ancestors "C" = ["C", "P"] := by
  have keys : heirRenamer.hierarchy.classes.keys = ["P", "C"] := rfl
  have above : heirRenamer.hierarchy.parents "C" = ["P"] := rfl
  have top : heirRenamer.hierarchy.parents "P" = [] := rfl
  simp [Hierarchy.ancestors, Hierarchy.visit, keys, above, top]

theorem mapMember_heir {kind : MemberKind} {name desc mapped : String}
    (kept : Renamer.keepsName kind name = false)
    (found : parentTable.mapMember? kind "P" name desc = some mapped) :
    heirRenamer.mapMember kind "C" name desc = mapped := by
  have own : parentTable.mapMember? kind "C" name desc = none := rfl
  have table : heirRenamer.table = parentTable := rfl
  have inherited : heirRenamer.inherited? kind "C" name desc = some mapped := by
    rw [Renamer.inherited?, ancestors_heir, table, own]
    simp [found]
  rw [Renamer.mapMember, kept, inherited]
  rfl

theorem side_entries_follow_heir :
    Widener.renameEntryLines heirRenamer 2 ["mutable method C m ()V".toList] =
        .ok ["mutable\tmethod\tC\tk\t()V"] ∧
      Transformer.renameLine heirRenamer "public C m()V # own".toList = "public C k()V # own" ∧
        Transformer.renameLine heirRenamer "public P f".toList = "public P g" := by
  obtain ⟨renamed, -, rfl, widener, transformer⟩ :=
    @side_entries_follow heirRenamer [] heirNode .method ⟨0, "m", "()V", []⟩
      (List.mem_singleton.mpr rfl) rfl
  obtain ⟨_, -, rfl, -, field⟩ :=
    @side_entries_follow heirRenamer [] parentNode .field ⟨0, "f", "I", []⟩
      (List.mem_singleton.mpr rfl) rfl
  have nameable : Nameable .method heirNode ⟨0, "m", "()V", []⟩ :=
    ⟨by decide, by decide, by decide, fun _ => by decide⟩
  have fieldNameable : Nameable .field parentNode ⟨0, "f", "I", []⟩ :=
    ⟨by decide, by decide, by decide, nofun⟩
  have name : heirRenamer.mapMember .method heirNode.name "m" "()V" = "k" :=
    mapMember_heir rfl rfl
  have desc : heirRenamer.mapDesc "()V" = "()V" := by decide +kernel
  have unnamed : Renames.name? [] .method heirNode.name "m" "()V" = none := rfl
  simp only [MemberNode.rename, name, desc, unnamed, Option.getD_none] at widener transformer
  refine ⟨?_, ?_, ?_⟩
  · exact widener "mutable" _ none rfl (by decide) 2 []
  · exact (transformer nameable "public" [] _ (some "# own".toList) (by decide)).1 nofun
  · have found : heirRenamer.FoundByName "P" "f" "I" := ⟨by decide, .inl (by decide)⟩
    exact (field fieldNameable "public" [] "public P f".toList none (by decide)).1 fun _ => found

/-- The only field of a class is named by its type, and the entry by the row of another type. -/
theorem field_entry_of_other_type : ∃ renamed,
    (Renaming.ofInputs
        ⟨"a", "b", [("C", ⟨"C", [⟨"f", "J", "x"⟩, ⟨"f", "I", "y"⟩], []⟩)]⟩
        ⟨none, [.widener false, .transformer]⟩ []
        [⟨[("C.class", .classFile { parentNode with name := "C" }),
          ("accesstransformer.cfg", .text "public C f\n")]⟩]).archive = .ok renamed ∧
      (renamed.class? "C").map (·.fields.map (·.name)) = some ["y"] ∧
        renamed.text? "accesstransformer.cfg" = some "public C x\n" := by
  refine ⟨_, rfl, rfl, ?_⟩
  decide +kernel

end ArchiveRemap
