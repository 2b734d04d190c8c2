import ArchiveRemap.Hierarchy.Lookup
import ArchiveRemap.RenameTable.Basic

/-!
Renaming against a hierarchy. The hierarchy is in the source namespace of the table, and
everything that is renamed comes out in its target namespace. A member without a new name
of its own takes the new name of the nearest supertype's member with its signature, so a
method and what it overrides keep one name. Constructors and initialisers, whose names
start with `<`, keep theirs.
-/

namespace ArchiveRemap

structure Renamer where
  table : RenameTable
  hierarchy : Hierarchy
  deriving Repr

namespace Renamer

def knows (renamer : Renamer) (name : String) : Bool := renamer.hierarchy.knows name

def mapClass (renamer : Renamer) (name : String) : String :=
  (renamer.table.mapClass? name).getD name

def mapDesc (renamer : Renamer) (desc : String) : String := renamer.table.mapDesc desc

/-- The first new name that the owner or one of its supertypes has for a member. -/
def inherited? (renamer : Renamer) (kind : MemberKind) (owner name desc : String) :
    Option String :=
  match renamer.table.mapMember? kind owner name desc with
  | some mapped => some mapped
  | none =>
      ((renamer.hierarchy.ancestors owner).drop 1).findSome? fun ancestor =>
        renamer.table.mapMember? kind ancestor name desc

def keepsName (kind : MemberKind) (name : String) : Bool :=
  kind = .method && name.toList.head? = some '<'

def mapMember (renamer : Renamer) (kind : MemberKind) (owner name desc : String) : String :=
  if keepsName kind name then name
  else (renamer.inherited? kind owner name desc).getD name

def mapRef (renamer : Renamer) (kind : MemberKind) (member : MemberRef) : String :=
  renamer.mapMember kind member.owner member.name member.desc

end Renamer

end ArchiveRemap
