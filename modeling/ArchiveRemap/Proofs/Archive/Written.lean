import ArchiveRemap.Proofs.Archive.Elements
import ArchiveRemap.Proofs.File.Growth
import ArchiveRemap.Proofs.Mixin.Refmap
import ArchiveRemap.Remapper.Hop

/-!
Archives as text. An archive is written and read back as the same archive, entries and
annotation elements in their order, up to the depth that a reader allows. Each part is taken back
from the tree of its document, from the elements of annotations outward.
-/

namespace ArchiveRemap

open Json (Value Tree)
open Json.Value (levels memberLevels)

structure MemberNode.Distinct (member : MemberNode) : Prop where
  annotations : ∀ note ∈ member.annotations, note.Distinct

structure ClassNode.Distinct (node : ClassNode) : Prop where
  annotations : ∀ note ∈ node.annotations, note.Distinct
  fields : ∀ field ∈ node.fields, field.Distinct
  methods : ∀ method ∈ node.methods, method.Distinct

/-- Paths come once, and so do the names in every annotation. -/
structure Archive.Distinct (archive : Archive) : Prop where
  paths : archive.entries.keys.Nodup
  classes : ∀ node ∈ archive.classes, node.Distinct

/-! Lists that are written only if they hold something. -/

section Optional

variable {α : Type} {write : α → Value} {items : List α}

theorem get?_optionalList_of_ne {name other : String} (different : name ≠ other) :
    Keyed.get? other (optionalList name write items) = none := by
  cases items with
  | nil => rfl
  | cons item rest => exact if_neg different

theorem keys_optionalList_sublist (name : String) :
    (Keyed.keys (optionalList name write items)).Sublist [name] := by
  cases items with
  | nil => exact .cons _ .slnil
  | cons item rest => exact .refl _

theorem memberLevels_optionalList (name : String) {room : Nat} :
    memberLevels (optionalList name write items) ≤ room + 1 ↔
      ∀ item ∈ items, (write item).levels ≤ room := by
  cases items with
  | nil => simp [optionalList, memberLevels]
  | cons item rest =>
      simp [optionalList, memberLevels, levels, Value.itemLevels_le_iff]

/-- A list that is written only if it is not empty is read as it was. -/
theorem orAbsent_optionalList {take : Tree → Option α} {room : Nat} (name : String)
    (each : ∀ item ∈ items,
      take (write item).tree = if (write item).levels ≤ room then some item else none) :
    Tree.orAbsent [] (Tree.listOf? take)
      ((Keyed.get? name (optionalList name write items)).map Value.tree) =
        if ∀ item ∈ items, (write item).levels ≤ room then some items else none := by
  cases items with
  | nil => rfl
  | cons item rest =>
      have held : Keyed.get? name (optionalList name write (item :: rest)) =
          some (.array ((item :: rest).map write)) :=
        if_pos rfl
      rw [held]
      exact Tree.listOf?_tree each

end Optional

/-! Members and classes. -/

theorem takeAccess?_tree (access : UInt16) :
    takeAccess? (some (Value.integer access.toNat).tree) = some access := by
  have back := @Tree.integerIn?_tree 0 65535 access.toNat (by decide) (by decide) (by omega)
    (by have := access.toNat_lt; omega)
  rw [takeAccess?, Tree.orAbsent, back]
  simp

theorem takeAnnotations?_optionalList {notes : List AnnotationNode}
    (distinct : ∀ note ∈ notes, note.Distinct) (room : Nat) :
    takeAnnotations? (room + 1) ((Keyed.get? "annotations"
      (optionalList "annotations" AnnotationNode.toJson notes)).map Value.tree) =
        if ∀ note ∈ notes, note.toJson.levels ≤ room then some notes else none :=
  orAbsent_optionalList "annotations" fun note inside => (distinct note inside).take?_toJson room

namespace MemberNode

/-- What the object of a member holds. -/
def jsonFields (member : MemberNode) : List (String × Value) :=
  [("access", .integer member.access.toNat), ("name", .string member.name),
    ("desc", .string member.desc)] ++
    optionalList "annotations" AnnotationNode.toJson member.annotations

theorem keys_jsonFields_nodup (member : MemberNode) : (Keyed.keys member.jsonFields).Nodup := by
  apply List.Sublist.nodup _ (by decide : ["access", "name", "desc", "annotations"].Nodup)
  rw [jsonFields, Keyed.keys, List.map_append]
  exact (keys_optionalList_sublist "annotations").append_left ["access", "name", "desc"]

theorem levels_toJson_le_iff (member : MemberNode) {room : Nat} :
    member.toJson.levels ≤ room + 2 ↔ ∀ note ∈ member.annotations, note.toJson.levels ≤ room := by
  rw [← memberLevels_optionalList "annotations"]
  simp [toJson, levels, memberLevels]

theorem Distinct.take?_toJson {member : MemberNode} (distinct : member.Distinct) (room : Nat) :
    MemberNode.take? (room + 2) member.toJson.tree =
      if member.toJson.levels ≤ room + 2 then some member else none := by
  have notes := takeAnnotations?_optionalList distinct.annotations room
  have written : member.toJson = .object member.jsonFields := rfl
  rw [MemberNode.take?, written, Tree.record?_tree member.keys_jsonFields_nodup, ← written]
  simp only [member.levels_toJson_le_iff]
  simp only [jsonFields, List.cons_append, List.nil_append, List.map_cons, List.map_nil,
    Keyed.get?, String.reduceEq, if_true, if_false, Option.map_some, Option.bind_eq_bind,
    Option.bind_some, takeAccess?_tree, Tree.string?_tree, Nat.add_one_sub_one, notes]
  split_ifs <;> rfl

end MemberNode

theorem takeMembers?_optionalList {name : String} {members : List MemberNode}
    (distinct : ∀ member ∈ members, member.Distinct) (room : Nat) :
    takeMembers? (room + 3) ((Keyed.get? name
      (optionalList name MemberNode.toJson members)).map Value.tree) =
        if ∀ member ∈ members, member.toJson.levels ≤ room + 2 then some members else none :=
  orAbsent_optionalList name fun member inside => (distinct member inside).take?_toJson room

namespace ClassNode

def superField (node : ClassNode) : List (String × Value) :=
  match node.superName with
  | some name => [("super_name", .string name)]
  | none => []

/-- What the object of a class holds. -/
def jsonFields (node : ClassNode) : List (String × Value) :=
  [("name", .string node.name), ("access", .integer node.access.toNat)] ++ node.superField ++
    optionalList "interfaces" .string node.interfaces ++
    optionalList "annotations" AnnotationNode.toJson node.annotations ++
    optionalList "fields" MemberNode.toJson node.fields ++
    optionalList "methods" MemberNode.toJson node.methods

def jsonNames : List String :=
  ["name", "access", "super_name", "interfaces", "annotations", "fields", "methods"]

theorem keys_superField_sublist (node : ClassNode) :
    (Keyed.keys node.superField).Sublist ["super_name"] := by
  rw [superField]
  cases node.superName with
  | none => exact .cons _ .slnil
  | some name => exact .refl _

theorem keys_jsonFields_sublist (node : ClassNode) :
    (Keyed.keys node.jsonFields).Sublist jsonNames := by
  simp only [jsonFields, Keyed.keys, List.map_append]
  exact ((((List.Sublist.append_left node.keys_superField_sublist ["name", "access"]).append
    (keys_optionalList_sublist "interfaces")).append
      (keys_optionalList_sublist "annotations")).append
        (keys_optionalList_sublist "fields")).append (keys_optionalList_sublist "methods")

theorem levels_toJson_le_iff (node : ClassNode) {room : Nat} :
    node.toJson.levels ≤ room + 4 ↔
      (∀ note ∈ node.annotations, note.toJson.levels ≤ room + 2) ∧
        (∀ field ∈ node.fields, field.toJson.levels ≤ room + 2) ∧
          ∀ method ∈ node.methods, method.toJson.levels ≤ room + 2 := by
  have named : memberLevels [("name", Value.string node.name),
      ("access", .integer node.access.toNat)] ≤ room + 3 := Nat.zero_le _
  have inherits : memberLevels node.superField ≤ room + 3 := by
    rw [superField]
    cases node.superName <;> exact Nat.zero_le _
  have interfaces :
      memberLevels (optionalList "interfaces" .string node.interfaces) ≤ room + 3 := by
    rw [memberLevels_optionalList]
    exact fun _ _ => Nat.zero_le _
  change memberLevels node.jsonFields + 1 ≤ _ ↔ _
  simp only [jsonFields, Nat.add_le_add_iff_right, Value.memberLevels_append_le_iff, named,
    inherits, interfaces, memberLevels_optionalList, true_and, and_assoc]

theorem superName_taken (node : ClassNode) :
    Tree.orAbsent none (Tree.nullable? Tree.string?)
      ((Keyed.get? "super_name" node.superField).map Value.tree) = some node.superName := by
  rw [superField]
  cases node.superName <;> rfl

theorem interfaces_taken (interfaces : List String) :
    Tree.orAbsent [] (Tree.listOf? Tree.string?) ((Keyed.get? "interfaces"
      (optionalList "interfaces" .string interfaces)).map Value.tree) = some interfaces := by
  have taken := @orAbsent_optionalList _ Value.string interfaces Tree.string? 0 "interfaces"
    fun _ _ => rfl
  exact taken.trans (if_pos fun _ _ => Nat.le_refl 0)

theorem get?_jsonFields (node : ClassNode) :
    jsonNames.map (fun name => Keyed.get? name node.jsonFields) =
      [some (.string node.name), some (.integer node.access.toNat),
        Keyed.get? "super_name" node.superField,
        Keyed.get? "interfaces" (optionalList "interfaces" .string node.interfaces),
        Keyed.get? "annotations"
          (optionalList "annotations" AnnotationNode.toJson node.annotations),
        Keyed.get? "fields" (optionalList "fields" MemberNode.toJson node.fields),
        Keyed.get? "methods" (optionalList "methods" MemberNode.toJson node.methods)] := by
  have other {name : String} (different : name ≠ "super_name") :
      Keyed.get? name node.superField = none := by
    rw [superField]
    cases node.superName with
    | none => rfl
    | some super => exact if_neg (Ne.symm different)
  simp [jsonNames, jsonFields, Keyed.get?_append, Keyed.get?, get?_optionalList_of_ne, other]

theorem Distinct.take?_toJson {node : ClassNode} (distinct : node.Distinct) (room : Nat) :
    ClassNode.take? (room + 4) node.toJson.tree =
      if node.toJson.levels ≤ room + 4 then some node else none := by
  have notes := takeAnnotations?_optionalList distinct.annotations (room + 2)
  have fields := @takeMembers?_optionalList "fields" _ distinct.fields room
  have methods := @takeMembers?_optionalList "methods" _ distinct.methods room
  have keys : (Keyed.keys node.jsonFields).Nodup :=
    node.keys_jsonFields_sublist.nodup (by decide)
  have written : node.toJson = .object node.jsonFields := rfl
  have record : node.toJson.tree.record? jsonNames =
      some ((jsonNames.map fun name => Keyed.get? name node.jsonFields).map
        (·.map Value.tree)) := by
    rw [written, Tree.record?_tree keys, List.map_map]
    rfl
  rw [get?_jsonFields, jsonNames] at record
  rw [ClassNode.take?, record]
  simp only [node.levels_toJson_le_iff, List.map_cons, List.map_nil, Option.map_some,
    Option.bind_eq_bind, Option.bind_some, takeAccess?_tree, Tree.string?_tree,
    Nat.add_one_sub_one, superName_taken, interfaces_taken, notes, fields, methods]
  rw [ite_and, ite_and]
  split_ifs <;> rfl

end ClassNode

/-! Entries and archives. -/

theorem takeByte?_tree (byte : UInt8) :
    takeByte? (Value.integer byte.toNat).tree = some byte := by
  have back := @Tree.integerIn?_tree 0 255 byte.toNat (by decide) (by decide) (by omega)
    (by have := byte.toNat_lt; omega)
  rw [takeByte?, back]
  simp

namespace Entry

theorem binary_taken (bytes : List UInt8) :
    (Value.array (bytes.map fun byte => .integer byte.toNat)).tree.listOf? takeByte? =
      some bytes := by
  have taken := @Tree.listOf?_tree _ takeByte? (fun byte => .integer byte.toNat) (fun _ => True)
    _ bytes fun byte _ => takeByte?_tree byte
  exact taken.trans (if_pos fun _ _ => trivial)

theorem levels_binary (bytes : List UInt8) : (binary bytes).toJson.levels ≤ 2 := by
  have flat : Value.itemLevels (bytes.map fun byte => .integer byte.toNat) ≤ 0 := by
    rw [Value.itemLevels_le_iff, List.forall_mem_map]
    exact fun _ _ => Nat.le_refl 0
  rw [toJson, Value.levels_variant, levels]
  omega

theorem take?_toJson {entry : Entry} (distinct : ∀ node ∈ entry.class?, node.Distinct)
    (room : Nat) :
    take? (room + 5) entry.toJson.tree =
      if entry.toJson.levels ≤ room + 5 then some entry else none := by
  cases entry with
  | classFile node =>
      have taken := (distinct node rfl).take?_toJson room
      rw [toJson, take?, Tree.variant?_tree, Value.levels_variant]
      simp only [Option.bind_eq_bind, Option.bind_some, if_true, Nat.add_one_sub_one, taken]
      by_cases within : node.toJson.levels ≤ room + 4
      · rw [if_pos within, if_pos (by omega)]
        rfl
      · rw [if_neg within, if_neg (by omega)]
        rfl
  | text content =>
      rw [toJson, take?, Tree.variant?_tree, Value.levels_variant]
      simp [levels, Tree.string?_tree]
  | binary bytes =>
      have low := levels_binary bytes
      rw [if_pos (by omega), toJson, take?, Tree.variant?_tree]
      simp only [Option.bind_eq_bind, Option.bind_some, String.reduceEq, if_false, if_true,
        binary_taken]
      rfl

end Entry

namespace Archive

theorem Distinct.of_mem {archive : Archive} (distinct : archive.Distinct)
    {pair : String × Entry} (member : pair ∈ archive.entries) {node : ClassNode}
    (held : node ∈ pair.2.class?) : node.Distinct :=
  distinct.classes node (mem_classes member held)

theorem levels_toJson_le_iff (archive : Archive) {room : Nat} :
    archive.toJson.levels ≤ room + 2 ↔
      ∀ pair ∈ archive.entries, pair.2.toJson.levels ≤ room := by
  rw [toJson, Value.levels_variant, levels, Nat.add_le_add_iff_right (n := 2)]
  rw [Value.memberLevels_le_iff, List.forall_mem_map]

theorem Distinct.take?_toJson {archive : Archive} (distinct : archive.Distinct) (room : Nat) :
    Archive.take? (room + 7) archive.toJson.tree =
      if archive.toJson.levels ≤ room + 7 then some archive else none := by
  have each : ∀ pair ∈ archive.entries, Entry.take? (room + 7 - 2) pair.2.toJson.tree =
      if pair.2.toJson.levels ≤ room + 5 then some pair.2 else none := by
    intro pair member
    apply Entry.take?_toJson
    exact fun node held => distinct.of_mem member held
  have members := @Tree.mapM_members _ _ Entry.toJson (·.toJson.levels ≤ room + 5) _ _ each
  have again : Keyed.ofList archive.entries = archive.entries :=
    Keyed.ofList_of_nodup distinct.paths
  rw [Archive.take?, toJson, Tree.record?_variant, ← toJson]
  simp only [levels_toJson_le_iff, Option.bind_eq_bind, Option.bind_some, Tree.members?_tree,
    members]
  split_ifs
  · rw [Option.bind_some, again]
  · rfl

end Archive

/-! Numbers are in their ranges. -/

theorem legal_bytes (bytes : List UInt8) :
    (Value.array (bytes.map fun byte => .integer byte.toNat)).Legal := by
  apply Value.legal_array
  rw [List.forall_mem_map]
  intro byte member
  have few := byte.toNat_lt
  exact Value.legal_integer (by omega) (by omega)

theorem legal_optionalList {α : Type} {write : α → Value} {items : List α} (name : String)
    (each : ∀ item ∈ items, (write item).Legal) :
    ∀ member ∈ optionalList name write items, member.2.Legal := by
  cases items with
  | nil => exact fun _ member => nomatch member
  | cons item rest =>
      have written : (Value.array ((item :: rest).map write)).Legal := by
        apply Value.legal_array
        rw [List.forall_mem_map]
        exact each
      simpa [optionalList] using written

theorem legal_access (access : UInt16) : (Value.integer access.toNat).Legal := by
  have few := access.toNat_lt
  exact Value.legal_integer (by omega) (by omega)

theorem MemberNode.Distinct.legal {member : MemberNode} (distinct : member.Distinct) :
    member.toJson.Legal := by
  apply Value.legal_object
  rw [List.forall_mem_append]
  constructor
  · simp [legal_access, Value.legal_string]
  · exact legal_optionalList _ fun note inside => (distinct.annotations note inside).legal

theorem ClassNode.Distinct.legal {node : ClassNode} (distinct : node.Distinct) :
    node.toJson.Legal := by
  have super : ∀ member ∈ node.superField, member.2.Legal := by
    rw [ClassNode.superField]
    cases node.superName with
    | none => exact fun _ member => nomatch member
    | some name => exact List.forall_mem_singleton.mpr (Value.legal_string name)
  apply Value.legal_object
  change ∀ member ∈ node.jsonFields, member.2.Legal
  simp only [ClassNode.jsonFields, List.forall_mem_append]
  refine ⟨⟨⟨⟨⟨?_, super⟩, ?_⟩, ?_⟩, ?_⟩, ?_⟩
  · simp [legal_access, Value.legal_string]
  · exact legal_optionalList _ fun name _ => Value.legal_string name
  · exact legal_optionalList _ fun note inside => (distinct.annotations note inside).legal
  · exact legal_optionalList _ fun field inside => (distinct.fields field inside).legal
  · exact legal_optionalList _ fun method inside => (distinct.methods method inside).legal

theorem Entry.legal_toJson {entry : Entry} (distinct : ∀ node ∈ entry.class?, node.Distinct) :
    entry.toJson.Legal := by
  cases entry with
  | classFile node => exact Value.legal_variant (distinct node rfl).legal
  | text content => exact Value.legal_variant (Value.legal_string content)
  | binary bytes => exact Value.legal_variant (legal_bytes bytes)

namespace Archive

variable {archive : Archive}

theorem Distinct.legal (distinct : archive.Distinct) : archive.toJson.Legal := by
  apply Value.legal_variant
  apply Value.legal_object
  rw [List.forall_mem_map]
  intro pair member
  exact Entry.legal_toJson fun node held => distinct.of_mem member held

theorem Distinct.read_write (distinct : archive.Distinct) (path : String) :
    Archive.read path archive.write =
      if archive.toJson.levels ≤ Json.maxDepth then .ok archive else .error (.malformed path) := by
  have taken : Archive.parse? archive.write =
      if archive.toJson.levels ≤ Json.maxDepth then some archive else none := by
    rw [parse?, write, Json.parse?_indentedText distinct.legal, Option.bind_some]
    exact distinct.take?_toJson 120
  rw [Archive.read, taken]
  split_ifs <;> rfl

/-- An archive that is stored is read back, if its annotations are not nested too deep, and a
reference map is read back in any case. -/
theorem survives_storage :
    (∀ archive : Archive, archive.Distinct → ∀ files path after,
      FileTree.write files path archive.write = .ok after →
        Remapper.readArchive after path =
          if archive.toJson.levels ≤ Json.maxDepth then .ok archive
          else .error (.malformed path)) ∧
      ∀ refmap : Mixin.ReferenceMap, Mixin.ReferenceMap.parse? refmap.write = some refmap := by
  constructor
  · intro archive distinct files path after written
    rw [Remapper.readArchive, FileTree.read_of_write written]
    exact distinct.read_write path
  · exact Mixin.ReferenceMap.parse?_write

/-- An annotation in an annotation, the least and the largest number, and a text to be escaped. -/
def deepNote : AnnotationNode :=
  let items := [.int Int64.minValue, .int Int64.maxValue, .constant "LE;" "\x00\n\"é"]
  ⟨"LM;", [("z", .nested "LN;" [("v", .array items)]), ("a", .bool true)]⟩

def annotated : Archive :=
  let node : ClassNode :=
    { name := "b/C"
      access := 65535
      superName := some "a/B"
      interfaces := ["a/I"]
      annotations := [deepNote]
      fields := [⟨0, "f", "I", [deepNote]⟩]
      methods := [] }
  ⟨[("z", .binary [0, 255]), ("b/C.class", .classFile node), ("a", .text "\t\\")]⟩

theorem distinct_deepNote : deepNote.Distinct where
  names := by decide
  each := by
    have items : ∀ item ∈ [Element.int Int64.minValue, .int Int64.maxValue,
        .constant "LE;" "\x00\n\"é"], item.Distinct := by
      rw [List.forall_mem_cons, List.forall_mem_cons, List.forall_mem_singleton]
      exact ⟨.int _, .int _, .constant _ _⟩
    have nested : (Element.nested "LN;" [("v", .array _)]).Distinct :=
      .nested (List.nodup_singleton "v") (List.forall_mem_singleton.mpr (.array items))
    exact List.forall_mem_cons.mpr ⟨nested, List.forall_mem_singleton.mpr (.bool true)⟩

theorem distinct_annotated : annotated.Distinct where
  paths := by decide
  classes := List.forall_mem_singleton.mpr
    { annotations := List.forall_mem_singleton.mpr distinct_deepNote
      fields := List.forall_mem_singleton.mpr
        ⟨List.forall_mem_singleton.mpr distinct_deepNote⟩
      methods := nofun }

theorem survives_storage_annotated : annotated.Distinct ∧
    Remapper.readArchive ⟨[(["a"], annotated.write)], [], []⟩ "a" = .ok annotated := by
  have written : FileTree.write ⟨[], [], []⟩ "a" annotated.write =
      .ok ⟨[(["a"], annotated.write)], [], []⟩ := rfl
  have shallow : annotated.toJson.levels ≤ Json.maxDepth := by decide
  have read := survives_storage.1 annotated distinct_annotated _ _ _ written
  rw [if_pos shallow] at read
  exact ⟨distinct_annotated, read⟩

end Archive

end ArchiveRemap
