import ArchiveRemap.RenameTable.Basic

/-!
A rename table as Tiny v2 text of two namespaces, classes in the order of their names.
-/

namespace ArchiveRemap.RenameTable

def memberLine (mark : String) (member : MemberRename) : String :=
  "\t" ++ mark ++ "\t" ++ member.desc ++ "\t" ++ member.name ++ "\t" ++ member.mapped ++ "\n"

def classText (name : String) (entry : ClassRename) : String :=
  "c\t" ++ name ++ "\t" ++ entry.mapped ++ "\n" ++
    String.join (entry.fields.map (memberLine "f")) ++
    String.join (entry.methods.map (memberLine "m"))

def sortedClasses (table : RenameTable) : List (String × ClassRename) :=
  table.classes.mergeSort fun left right => left.1 ≤ right.1

def toTiny (table : RenameTable) : String :=
  "tiny\t2\t0\t" ++ table.source ++ "\t" ++ table.target ++ "\n" ++
    String.join (table.sortedClasses.map fun (name, entry) => classText name entry)

end ArchiveRemap.RenameTable
