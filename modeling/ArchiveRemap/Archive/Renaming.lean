import ArchiveRemap.Hierarchy.Renamer
import ArchiveRemap.Mixin.Hop
import ArchiveRemap.SideFile.Basic

/-!
Renaming archives into another namespace. Names, descriptors, class literals and enum
constants change; strings are left to the reference maps. A class moves to the path of its
new name, and of two entries with one path the later one stays.
-/

namespace ArchiveRemap

open Mixin (Renames)

/-! Annotations. -/

namespace Element

/-- The name of an enum constant, which is a field of its own type. -/
def renameConstant (renamer : Renamer) (desc value : String) : String :=
  match Descriptor.objectType? desc with
  | some owner => renamer.mapMember .field owner value desc
  | none => value

mutual

def rename (renamer : Renamer) : Element → Element
  | .type desc => .type (renamer.mapDesc desc)
  | .constant desc value =>
      .constant (renamer.mapDesc desc) (renameConstant renamer desc value)
  | .array items => .array (renameItems renamer items)
  | .nested desc values =>
      .nested (renamer.mapDesc desc) (renameValues renamer values)
  | .bool truth => .bool truth
  | .int number => .int number
  | .string text => .string text

def renameItems (renamer : Renamer) : List Element → List Element
  | [] => []
  | item :: rest => item.rename renamer :: renameItems renamer rest

def renameValues (renamer : Renamer) : List (String × Element) → List (String × Element)
  | [] => []
  | (name, item) :: rest => (name, item.rename renamer) :: renameValues renamer rest

end

end Element

def AnnotationNode.rename (renamer : Renamer) (note : AnnotationNode) : AnnotationNode :=
  ⟨renamer.mapDesc note.desc, Element.renameValues renamer note.values⟩

/-! Classes and entries. -/

def MemberNode.rename (renamer : Renamer) (renames : Renames) (kind : MemberKind)
    (owner : String) (member : MemberNode) : MemberNode :=
  { access := member.access
    name := (renames.name? kind owner member.name member.desc).getD
      (renamer.mapMember kind owner member.name member.desc)
    desc := renamer.mapDesc member.desc
    annotations := member.annotations.map (·.rename renamer) }

def ClassNode.rename (renamer : Renamer) (renames : Renames) (node : ClassNode) : ClassNode :=
  { name := renamer.mapClass node.name
    access := node.access
    superName := node.superName.map renamer.mapClass
    interfaces := node.interfaces.map renamer.mapClass
    annotations := node.annotations.map (·.rename renamer)
    fields := node.fields.map (·.rename renamer renames .field node.name)
    methods := node.methods.map (·.rename renamer renames .method node.name) }

/-- An entry with its new path, and what there is to notice about it. -/
def renameEntry (renamer : Renamer) (renames : Renames) (sideFiles : List SideFile)
    (path : String) (entry : Entry) : Except ArchiveError ((String × Entry) × List Notice) :=
  match entry with
  | .classFile node =>
      let renamed := node.rename renamer renames
      .ok ((renamed.path, .classFile renamed), [])
  | .text content =>
      match sideFiles.find? fun kind => kind.accepts path with
      | some kind => do
          let (text, notices) ← kind.transform path content renamer
          .ok ((path, .text text), notices)
      | none => .ok ((path, .text content), [])
  | .binary bytes => .ok ((path, .binary bytes), [])

/-- Entries in their order, up to the first that fails. -/
def renameEntries (renamer : Renamer) (renames : Renames) (sideFiles : List SideFile) :
    List (String × Entry) → Except ArchiveError (List (String × Entry)) × List Notice
  | [] => (.ok [], [])
  | (path, entry) :: rest =>
      match renameEntry renamer renames sideFiles path entry with
      | .error fault => (.error fault, [])
      | .ok (first, notices) =>
          let (others, more) := renameEntries renamer renames sideFiles rest
          (others.map (first :: ·), notices ++ more)

/-- The entries of all inputs in one archive. -/
def renameArchives (renamer : Renamer) (renames : Renames) (sideFiles : List SideFile)
    (inputs : List Archive) : Except ArchiveError Archive × List Notice :=
  let (entries, notices) := renameEntries renamer renames sideFiles
    (inputs.flatMap fun input => input.entries)
  (entries.map fun entries => ⟨Keyed.ofList entries⟩, notices)

/-! The whole work of a hop. -/

/-- What a hop does besides renaming. -/
structure Extras where
  mixin : Option (Mixin.Registry × Mixin.Options)
  sideFiles : List SideFile

def Extras.none : Extras := ⟨.none, []⟩

/-- The archive of a hop, the reference maps found for it and what there is to notice. The
maps and notices are there even when the archive is not. -/
structure Renaming where
  archive : Except ArchiveError Archive
  refmaps : Mixin.Refmaps
  notices : List Notice

/-- Rename inputs together with the work on mixins. -/
def Renaming.withMixins (registry : Mixin.Registry) (options : Mixin.Options)
    (sideFiles : List SideFile) (renamer : Renamer) (inputs : List Archive) : Renaming :=
  match Mixin.Inputs.read options.defaultRefmap inputs with
  | (.error fault, notices) => ⟨.error (.mixin fault), .empty, notices⟩
  | (.ok read, found) =>
      let hop : Mixin.Hop := ⟨registry, options, read, renamer⟩
      let state := hop.run (inputs.flatMap Archive.classes)
      let refmaps := Mixin.Refmaps.nonEmpty state.refmaps
      let notices := found ++ state.notices
      match renameArchives renamer state.renames sideFiles inputs with
      | (.error fault, more) => ⟨.error fault, refmaps, notices ++ more⟩
      | (.ok archive, more) =>
          let (archive, last) := hop.addMixinFiles state archive
          ⟨.ok archive, refmaps, notices ++ more ++ last⟩

/-- Rename inputs with a table, against a hierarchy of the inputs and the classpath. -/
def Renaming.ofInputs (table : RenameTable) (extras : Extras) (classpath inputs : List Archive) :
    Renaming :=
  let hierarchy := Hierarchy.ofNodes ((inputs ++ classpath).flatMap Archive.classes)
  let renamer : Renamer := ⟨table, hierarchy⟩
  match extras.mixin with
  | some (registry, options) =>
      .withMixins registry options extras.sideFiles renamer inputs
  | none =>
      let (archive, notices) := renameArchives renamer [] extras.sideFiles inputs
      ⟨archive, .empty, notices⟩

end ArchiveRemap
