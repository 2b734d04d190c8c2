import ArchiveRemap.Hierarchy.Basic

/-!
Looking up the declaration that a member name refers to. A lookup walks the classes of a
search in order. It either takes the first declaration that matches, or insists that all
matching declarations have one signature; a declaration that overrides another has the
same signature and does not count again.
-/

namespace ArchiveRemap

/-- A declared member with the class that declares it. -/
structure MemberRef where
  owner : String
  name : String
  desc : String
  deriving DecidableEq, Repr

namespace MemberRef

def text (member : MemberRef) : String :=
  "L" ++ member.owner ++ ";" ++ member.name ++ member.desc

def signature (member : MemberRef) : Signature := ⟨member.name, member.desc⟩

end MemberRef

inductive Resolution (α : Type) where
  | found (value : α)
  | ambiguous (candidates : List α)
  | notFound
  deriving DecidableEq, Repr

namespace Resolution

variable {α β : Type}

def found? : Resolution α → Option α
  | .found value => some value
  | _ => none

def map (f : α → β) : Resolution α → Resolution β
  | .found value => .found (f value)
  | .ambiguous candidates => .ambiguous (candidates.map f)
  | .notFound => .notFound

end Resolution

inductive LookupMode where
  | unique
  | first
  deriving DecidableEq, Repr

/-- A member by name, and by descriptor if one is known. -/
structure MemberQuery where
  kind : MemberKind
  name : String
  desc : Option String
  deriving DecidableEq, Repr

def MemberQuery.matches (query : MemberQuery) (signature : Signature) : Bool :=
  signature.name = query.name &&
    match query.desc with
    | some desc => signature.desc = desc
    | none => true

/-- The first member of each signature. -/
def distinctSignatures (seen : List Signature) : List MemberRef → List MemberRef
  | [] => []
  | member :: rest =>
      if member.signature ∈ seen then distinctSignatures seen rest
      else member :: distinctSignatures (member.signature :: seen) rest

namespace Hierarchy

/-- The classes that a lookup searches, in order. -/
def searched (hierarchy : Hierarchy) (owner : String) (recursive : Bool) : List String :=
  if recursive then hierarchy.ancestors owner
  else if hierarchy.knows owner then [owner]
  else []

/-- The matching declarations of one class. -/
def declared (hierarchy : Hierarchy) (query : MemberQuery) (owner : String) :
    List MemberRef :=
  match hierarchy.class? owner with
  | some info =>
      ((info.members query.kind).filter query.matches).map fun signature =>
        ⟨owner, signature.name, signature.desc⟩
  | none => []

def resolve (hierarchy : Hierarchy) (query : MemberQuery) (owner : String)
    (recursive : Bool) (mode : LookupMode) : Resolution MemberRef :=
  let all := (hierarchy.searched owner recursive).flatMap (hierarchy.declared query)
  match mode with
  | .first =>
      match all with
      | [] => .notFound
      | member :: _ => .found member
  | .unique =>
      match distinctSignatures [] all with
      | [] => .notFound
      | [member] => .found member
      | candidates => .ambiguous candidates

end Hierarchy

end ArchiveRemap
