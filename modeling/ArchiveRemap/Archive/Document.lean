import ArchiveRemap.Archive.Basic
import ArchiveRemap.Failure
import ArchiveRemap.Json.Taking

/-!
Archives as JSON documents. What a class or a member leaves empty is not written, apart
from its access flags; a field that is not there is read as empty. Annotation elements and
entries are objects with one member that names the kind.
-/

namespace ArchiveRemap

open Json (Value Tree)

/-! Written form. -/

mutual

def Element.toJson : Element → Value
  | .bool truth => .object [("bool", .bool truth)]
  | .int number => .object [("int", .integer number.toInt)]
  | .string text => .object [("string", .string text)]
  | .type desc => .object [("type", .string desc)]
  | .constant desc value =>
      .object [("enum", .object [("desc", .string desc), ("value", .string value)])]
  | .array items => .object [("array", .array (elementsToJson items))]
  | .nested desc [] => .object [("annotation", .object [("desc", .string desc)])]
  | .nested desc (value :: values) =>
      .object [("annotation", .object
        [("desc", .string desc), ("values", .object (valuesToJson (value :: values)))])]

def elementsToJson : List Element → List Value
  | [] => []
  | item :: rest => item.toJson :: elementsToJson rest

def valuesToJson : List (String × Element) → List (String × Value)
  | [] => []
  | (name, item) :: rest => (name, item.toJson) :: valuesToJson rest

end

/-- A member that is written only if its list is not empty. -/
def optionalList {α : Type} (name : String) (write : α → Value) (items : List α) :
    List (String × Value) :=
  if items.isEmpty then [] else [(name, .array (items.map write))]

def AnnotationNode.toJson (note : AnnotationNode) : Value :=
  .object (("desc", .string note.desc) ::
    if note.values.isEmpty then []
    else [("values", .object (valuesToJson note.values))])

def MemberNode.toJson (member : MemberNode) : Value :=
  .object ([("access", .integer member.access.toNat), ("name", .string member.name),
    ("desc", .string member.desc)] ++
    optionalList "annotations" AnnotationNode.toJson member.annotations)

def ClassNode.toJson (node : ClassNode) : Value :=
  .object ([("name", .string node.name), ("access", .integer node.access.toNat)] ++
    (match node.superName with
      | some name => [("super_name", .string name)]
      | none => []) ++
    optionalList "interfaces" .string node.interfaces ++
    optionalList "annotations" AnnotationNode.toJson node.annotations ++
    optionalList "fields" MemberNode.toJson node.fields ++
    optionalList "methods" MemberNode.toJson node.methods)

def Entry.toJson : Entry → Value
  | .classFile node => .object [("class", node.toJson)]
  | .text content => .object [("text", .string content)]
  | .binary bytes =>
      .object [("binary", .array (bytes.map fun byte => .integer byte.toNat))]

def Archive.toJson (archive : Archive) : Value :=
  .object [("entries",
    .object (archive.entries.map fun (path, entry) => (path, entry.toJson)))]

/-- The text of an archive as it is stored. -/
def Archive.write (archive : Archive) : String := archive.toJson.indentedText

/-! Reading. `room` is the number of levels that may still be opened. -/

mutual

def Element.take? : Nat → Tree → Option Element
  | 0, _ => none
  | room + 1, tree => do
      let (kind, body) ← tree.variant?
      if kind = "bool" then (body.bool?).map .bool
      else if kind = "int" then
        (body.integerIn? (-(2 ^ 63)) (2 ^ 63 - 1)).map fun number => .int (Int64.ofInt number)
      else if kind = "string" then (body.string?).map .string
      else if kind = "type" then (body.string?).map .type
      else if kind = "enum" then
        match room, body.record? ["desc", "value"] with
        | _ + 1, some [some desc, some value] => do
            some (.constant (← desc.string?) (← value.string?))
        | _, _ => none
      else if kind = "array" then
        match room with
        | 0 => none
        | room + 1 => (body.listOf? (Element.take? room)).map .array
      else if kind = "annotation" then
        (AnnotationNode.take? room body).map fun note =>
          .nested note.desc note.values
      else none

def AnnotationNode.take? : Nat → Tree → Option AnnotationNode
  | 0, _ => none
  | room + 1, tree => do
      match ← tree.record? ["desc", "values"] with
      | [some desc, values] =>
          let desc ← desc.string?
          match values, room with
          | none, _ => some ⟨desc, []⟩
          | some _, 0 => none
          | some values, room + 1 => do
              let pairs ← (← values.members?).mapM fun (name, value) =>
                (Element.take? room value).map fun element => (name, element)
              some ⟨desc, Keyed.ofList pairs⟩
      | _ => none

end

def takeAccess? : Option Tree → Option UInt16 :=
  Tree.orAbsent 0 fun tree =>
    (tree.integerIn? 0 65535).map fun number => UInt16.ofNat number.toNat

def takeAnnotations? (room : Nat) : Option Tree → Option (List AnnotationNode) :=
  Tree.orAbsent [] (Tree.listOf? (AnnotationNode.take? (room - 1)))

def MemberNode.take? (room : Nat) (tree : Tree) : Option MemberNode := do
  match ← tree.record? ["access", "name", "desc", "annotations"] with
  | [access, some name, some desc, annotations] =>
      some ⟨← takeAccess? access, ← name.string?, ← desc.string?,
        ← takeAnnotations? (room - 1) annotations⟩
  | _ => none

def takeMembers? (room : Nat) : Option Tree → Option (List MemberNode) :=
  Tree.orAbsent [] (Tree.listOf? (MemberNode.take? (room - 1)))

def ClassNode.take? (room : Nat) (tree : Tree) : Option ClassNode := do
  match ← tree.record?
      ["name", "access", "super_name", "interfaces", "annotations", "fields", "methods"] with
  | [some name, access, superName, interfaces, annotations, fields, methods] =>
      some
        { name := ← name.string?
          access := ← takeAccess? access
          superName := ← Tree.orAbsent none (Tree.nullable? Tree.string?) superName
          interfaces := ← Tree.orAbsent [] (Tree.listOf? Tree.string?) interfaces
          annotations := ← takeAnnotations? (room - 1) annotations
          fields := ← takeMembers? (room - 1) fields
          methods := ← takeMembers? (room - 1) methods }
  | _ => none

def takeByte? (tree : Tree) : Option UInt8 :=
  (tree.integerIn? 0 255).map fun number => UInt8.ofNat number.toNat

def Entry.take? (room : Nat) (tree : Tree) : Option Entry := do
  let (kind, body) ← tree.variant?
  if kind = "class" then (ClassNode.take? (room - 1) body).map .classFile
  else if kind = "text" then (body.string?).map .text
  else if kind = "binary" then (body.listOf? takeByte?).map .binary
  else none

def Archive.take? (room : Nat) (tree : Tree) : Option Archive := do
  match ← tree.record? ["entries"] with
  | [some entries] =>
      let pairs ← (← entries.members?).mapM fun (path, entry) =>
        (Entry.take? (room - 2) entry).map fun entry => (path, entry)
      some ⟨Keyed.ofList pairs⟩
  | _ => none

/-- The archive of a text. -/
def Archive.parse? (text : String) : Option Archive :=
  (Json.parse? text).bind (Archive.take? Json.maxDepth)

/-- The archive of a text that was found at a path. -/
def Archive.read (path text : String) : Except ArchiveError Archive :=
  match Archive.parse? text with
  | some archive => .ok archive
  | none => .error (.malformed path)

end ArchiveRemap
