import ArchiveRemap.RenameTable.Basic
import ArchiveRemap.Symbol.ClassName
import ArchiveRemap.Text.Line

/-!
The shapes that the target of an injection point can have. A member is written as
`Lowner;name:desc` or `Lowner;name(desc)ret`, or with the owner in dotted form and a dot
after it; the dotted owner ends at the first dot. Everything else is a descriptor, if it
starts with a parenthesis, or a class.
-/

namespace ArchiveRemap.Mixin

inductive PointTarget where
  | member (kind : MemberKind) (owner name desc : String)
  | descriptor
  | other
  deriving DecidableEq, Repr

namespace PointTarget

/-- An owner between `L` and `;`, and what follows it. -/
def objectOwner? (text : List Char) : Option (List Char × List Char) :=
  match (Text.dropHead? ['L'] text).bind (Text.cut ';') with
  | some (c :: owner, rest) => some (c :: owner, rest)
  | _ => none

/-- An owner before a dot, and what follows it. -/
def dottedOwner? (text : List Char) : Option (List Char × List Char) :=
  match Text.cut '.' text with
  | some (c :: owner, rest) => some (c :: owner, rest)
  | _ => none

/-- A name and a descriptor around a mark. Neither is empty, and the descriptor is on one
line. -/
def nameAndRest? (mark : Char) (text : List Char) : Option (List Char × List Char) :=
  match Text.cut mark text with
  | some (name, rest) =>
      if name.isEmpty || rest.isEmpty || rest.contains '\n' then none else some (name, rest)
  | none => none

/-- A member after one of the two forms of an owner. -/
def memberAfter? (kind : MemberKind) (owner : List Char × List Char) : Option PointTarget :=
  match kind with
  | .field => (nameAndRest? ':' owner.2).map fun (name, desc) =>
      .member .field (String.ofList owner.1) (String.ofList name) (String.ofList desc)
  | .method => (nameAndRest? '(' owner.2).map fun (name, rest) =>
      .member .method (String.ofList owner.1) (String.ofList (Text.trim Text.isBlank name))
        (String.ofList ('(' :: rest))

def member? (kind : MemberKind) (text : List Char) : Option PointTarget :=
  ((objectOwner? text).bind (memberAfter? kind)).or
    ((dottedOwner? text).bind (memberAfter? kind))

/-- The shape of a target: a field before a method, a member before everything else. -/
def ofText (target : String) : PointTarget :=
  let text := target.toList
  match (member? .field text).or (member? .method text) with
  | some found => found
  | none => if text.head? = some '(' then .descriptor else .other

end PointTarget

end ArchiveRemap.Mixin
