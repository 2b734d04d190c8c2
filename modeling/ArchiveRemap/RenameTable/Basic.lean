import ArchiveRemap.Keyed
import ArchiveRemap.Symbol.Descriptor

/-!
Rename tables: the new names of classes, fields and methods on the way from one namespace
to another. Keys are names and descriptors of the source namespace. A descriptor of the
target namespace is never stored; it follows from the class names.
-/

namespace ArchiveRemap

inductive MemberKind where
  | field
  | method
  deriving DecidableEq, Repr

structure MemberRename where
  name : String
  desc : String
  mapped : String
  deriving DecidableEq, Repr

structure ClassRename where
  mapped : String
  fields : List MemberRename
  methods : List MemberRename
  deriving DecidableEq, Repr

namespace ClassRename

/-- A class that keeps its name and says nothing about members. -/
def identity (name : String) : ClassRename := ⟨name, [], []⟩

def members (kind : MemberKind) (entry : ClassRename) : List MemberRename :=
  match kind with
  | .field => entry.fields
  | .method => entry.methods

def addMember (kind : MemberKind) (member : MemberRename) (entry : ClassRename) : ClassRename :=
  match kind with
  | .field => { entry with fields := entry.fields ++ [member] }
  | .method => { entry with methods := entry.methods ++ [member] }

end ClassRename

structure RenameTable where
  source : String
  target : String
  classes : Keyed String ClassRename
  deriving DecidableEq, Repr

namespace RenameTable

def empty (source target : String) : RenameTable := ⟨source, target, []⟩

def size (table : RenameTable) : Nat := table.classes.length

def isEmpty (table : RenameTable) : Bool := table.classes.isEmpty

/-- Give a class its new name; what is known of its members stays. -/
def insertClass (table : RenameTable) (name mapped : String) : RenameTable :=
  { table with classes := table.classes.adjust name (.identity name) fun entry =>
      { entry with mapped := mapped } }

/-- Add a member after the others of its owner. -/
def insertMember (kind : MemberKind) (table : RenameTable) (owner : String)
    (member : MemberRename) : RenameTable :=
  { table with classes :=
      table.classes.adjust owner (.identity owner) (.addMember kind member) }

def insertMembers (kind : MemberKind) (table : RenameTable) (owner : String)
    (members : List MemberRename) : RenameTable :=
  members.foldl (fun done member => done.insertMember kind owner member) table

def class? (table : RenameTable) (name : String) : Option ClassRename :=
  table.classes.get? name

def mapClass? (table : RenameTable) (name : String) : Option String :=
  (table.class? name).map (·.mapped)

/-- The new name of the first member with this name and descriptor. -/
def mapMember? (kind : MemberKind) (table : RenameTable) (owner name desc : String) :
    Option String := do
  let entry ← table.class? owner
  let member ← (entry.members kind).find? fun member => member.name = name && member.desc = desc
  some member.mapped

/-- The new name of the first field with this name, whatever its type. -/
def mapFieldNamed? (table : RenameTable) (owner name : String) : Option String := do
  let entry ← table.class? owner
  let member ← entry.fields.find? fun member => member.name = name
  some member.mapped

def mapDesc (table : RenameTable) (desc : String) : String :=
  Descriptor.rename table.mapClass? desc

end RenameTable

end ArchiveRemap
