import ArchiveRemap.Archive.Basic

/-!
The hierarchy of all known classes. Supertypes are searched breadth first; a class that is
not known has no place in the search, and one that was visited is not visited again, so
cycles and diamonds in the data do no harm.
-/

namespace ArchiveRemap

/-- The name and descriptor under which a member is declared. -/
structure Signature where
  name : String
  desc : String
  deriving DecidableEq, Repr

/-- What a class declares, as far as the hierarchy needs it. -/
structure ClassShape where
  name : String
  superName : Option String
  interfaces : List String
  fields : List Signature
  methods : List Signature
  deriving DecidableEq, Repr

namespace ClassShape

def ofNode (node : ClassNode) : ClassShape :=
  let signatures (members : List MemberNode) : List Signature :=
    members.map fun member => ⟨member.name, member.desc⟩
  ⟨node.name, node.superName, node.interfaces, signatures node.fields,
    signatures node.methods⟩

/-- The superclass, then the interfaces as they are declared. -/
def parents (info : ClassShape) : List String := info.superName.toList ++ info.interfaces

def members (kind : MemberKind) (info : ClassShape) : List Signature :=
  match kind with
  | .field => info.fields
  | .method => info.methods

end ClassShape

structure Hierarchy where
  classes : Keyed String ClassShape
  deriving DecidableEq, Repr

namespace Hierarchy

def empty : Hierarchy := ⟨[]⟩

/-- Add a class; the first one of a name stays. -/
def insert (hierarchy : Hierarchy) (info : ClassShape) : Hierarchy :=
  ⟨hierarchy.classes.putNew info.name info⟩

def ofNodes (nodes : List ClassNode) : Hierarchy :=
  nodes.foldl (fun done node => done.insert (.ofNode node)) empty

def size (hierarchy : Hierarchy) : Nat := hierarchy.classes.length

def isEmpty (hierarchy : Hierarchy) : Bool := hierarchy.classes.isEmpty

def class? (hierarchy : Hierarchy) (name : String) : Option ClassShape :=
  hierarchy.classes.get? name

def knows (hierarchy : Hierarchy) (name : String) : Bool := (hierarchy.class? name).isSome

def parents (hierarchy : Hierarchy) (name : String) : List String :=
  match hierarchy.class? name with
  | some info => info.parents
  | none => []

/-- Visit the names of a queue; a name is visited when it comes to the front and is still
unseen, and its parents join the end of the queue. -/
def visit (parents : String → List String) (unseen queue : List String) : List String :=
  match queue with
  | [] => []
  | current :: rest =>
      if _member : current ∈ unseen then
        current :: visit parents (unseen.erase current) (rest ++ parents current)
      else visit parents unseen rest
termination_by (unseen.length, queue.length)
decreasing_by
  · apply Prod.Lex.left
    have := List.length_erase_of_mem ‹current ∈ unseen›
    have := List.length_pos_of_mem ‹current ∈ unseen›
    omega
  · apply Prod.Lex.right
    simp

/-- A known class and its known supertypes, nearest first. -/
def ancestors (hierarchy : Hierarchy) (name : String) : List String :=
  visit hierarchy.parents hierarchy.classes.keys [name]

end Hierarchy

end ArchiveRemap
