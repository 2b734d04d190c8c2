import ArchiveRemap.RenameTable.Basic

/-!
Tables turned around and tables one after the other.
-/

namespace ArchiveRemap.RenameTable

/-- The members as they are keyed and named on the way back. -/
def reverseMembers (table : RenameTable) (members : List MemberRename) : List MemberRename :=
  members.map fun member => ⟨member.mapped, table.mapDesc member.desc, member.name⟩

/-- The table from the target namespace back to the source. -/
def reverse (table : RenameTable) : RenameTable :=
  table.classes.foldl (fun done (name, entry) =>
    let done := done.insertClass entry.mapped name
    let done := done.insertMembers .field entry.mapped (table.reverseMembers entry.fields)
    done.insertMembers .method entry.mapped (table.reverseMembers entry.methods))
    (empty table.target table.source)

/-- The members of a class named `middle` between the tables, with their last names. What
the second table does not know keeps the name that the first one gives it. -/
def composeMembers (kind : MemberKind) (table next : RenameTable) (middle : String)
    (members : List MemberRename) : List MemberRename :=
  members.map fun member =>
    let last := next.mapMember? kind middle member.mapped (table.mapDesc member.desc)
    { member with mapped := last.getD member.mapped }

/-- The table that does what `table` and then `next` do. -/
def compose (table next : RenameTable) : RenameTable :=
  table.classes.foldl (fun done (name, entry) =>
    let middle := entry.mapped
    let done := done.insertClass name ((next.mapClass? middle).getD middle)
    let done := done.insertMembers .field name
      (composeMembers .field table next middle entry.fields)
    done.insertMembers .method name
      (composeMembers .method table next middle entry.methods))
    (empty table.source next.target)

end ArchiveRemap.RenameTable
