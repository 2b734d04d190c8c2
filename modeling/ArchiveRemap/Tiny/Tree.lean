import ArchiveRemap.Keyed
import ArchiveRemap.Digest.Sha256
import ArchiveRemap.RenameTable.Basic

/-!
Mapping data in the layout of Tiny v2: a column of names for each namespace, a row for each
class, and below it a row for each of its fields and methods. Descriptors and the keys of
classes are in the first namespace. A namespace need not have a name for every symbol.
-/

namespace ArchiveRemap.Tiny

/-- The names of one symbol, one place for each namespace. -/
abbrev Row := List (Option String)

namespace Row

/-- The name in the first namespace. -/
def firstName (row : Row) : String := (row.head?.bind id).getD ""

/-- The first name that the columns have, in their order. -/
def pick? (row : Row) (columns : List Nat) : Option String :=
  columns.findSome? fun column => (row[column]?).bind id

/-- The row with empty places up to a width. -/
def widen (width : Nat) (row : Row) : Row :=
  row ++ List.replicate (width - row.length) none

end Row

structure MemberRow where
  desc : String
  names : Row
  deriving DecidableEq, Repr

structure ClassRow where
  names : Row
  fields : List MemberRow
  methods : List MemberRow
  deriving DecidableEq, Repr

namespace ClassRow

def members (kind : MemberKind) (entry : ClassRow) : List MemberRow :=
  match kind with
  | .field => entry.fields
  | .method => entry.methods

def addMember (kind : MemberKind) (member : MemberRow) (entry : ClassRow) : ClassRow :=
  match kind with
  | .field => { entry with fields := entry.fields ++ [member] }
  | .method => { entry with methods := entry.methods ++ [member] }

end ClassRow

structure Tree where
  namespaces : List String
  classes : Keyed String ClassRow
  deriving DecidableEq, Repr

namespace Tree

def empty : Tree := ⟨[], []⟩

def size (tree : Tree) : Nat := tree.classes.length

def isEmpty (tree : Tree) : Bool := tree.classes.isEmpty

/-- The column of a namespace, the first one of its name. -/
def column? (tree : Tree) (name : String) : Option Nat :=
  tree.namespaces.findIdx? (· = name)

def class? (tree : Tree) (firstName : String) : Option ClassRow :=
  tree.classes.get? firstName

/-! The identity of the data: all names in order, each row ended by a mark of its own. -/

def rowBytes (row : Row) : List UInt8 :=
  row.flatMap (fun name => Sha256.utf8 (name.getD "") ++ [0]) ++ [1]

def memberBytes (member : MemberRow) : List UInt8 :=
  rowBytes [some member.desc] ++ rowBytes member.names

def classBytes (entry : ClassRow) : List UInt8 :=
  rowBytes entry.names ++ (entry.fields ++ entry.methods).flatMap memberBytes

/-- The bytes that stand for the whole tree. -/
def bytes (tree : Tree) : List UInt8 :=
  rowBytes (tree.namespaces.map some) ++ tree.classes.values.flatMap classBytes

def fingerprint (tree : Tree) : String := Sha256.hexDigest tree.bytes

end Tree

end ArchiveRemap.Tiny
