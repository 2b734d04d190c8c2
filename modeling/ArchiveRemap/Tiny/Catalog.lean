import ArchiveRemap.Namespace.Graph
import ArchiveRemap.Tiny.Tree

/-!
The tables that a graph and its mapping data give. A namespace borrows a name that it does
not have from the next namespace of its fallback chain. Tables are made when they are
first asked for and kept.
-/

namespace ArchiveRemap

open Tiny

/-- The columns that name symbols for a namespace, its own first. -/
def columnsFor (graph : Graph) (tree : Tree) (id : Nat) : Except RequestError (List Nat) :=
  match (graph.fallbackLine id).filterMap fun link => tree.column? (graph.name link) with
  | [] => .error (.unmappedNamespace (graph.name id))
  | columns => .ok columns

/-- Names of classes by their name in the first namespace. -/
def sourceNames (tree : Tree) (columns : List Nat) : Keyed String String :=
  tree.classes.values.foldl (fun done entry =>
    match entry.names.pick? columns with
    | some name => done.put entry.names.firstName name
    | none => done) []

/-- The members that have a name on both sides, with descriptors of the source. -/
def renamesOf (known : Keyed String String) (source target : List Nat)
    (members : List MemberRow) : List MemberRename :=
  members.filterMap fun member =>
    match member.names.pick? source, member.names.pick? target with
    | some name, some mapped =>
        some ⟨name, Descriptor.rename known.get? member.desc, mapped⟩
    | _, _ => none

def makeTable (graph : Graph) (tree : Tree) (source target : Nat) :
    Except RequestError RenameTable := do
  let sourceColumns ← columnsFor graph tree source
  let targetColumns ← columnsFor graph tree target
  let known := sourceNames tree sourceColumns
  .ok (tree.classes.values.foldl (fun table entry =>
    match entry.names.pick? sourceColumns, entry.names.pick? targetColumns with
    | some name, some mapped =>
        let table := table.insertClass name mapped
        let table := table.insertMembers .field name
          (renamesOf known sourceColumns targetColumns entry.fields)
        table.insertMembers .method name
          (renamesOf known sourceColumns targetColumns entry.methods)
    | _, _ => table) (.empty (graph.name source) (graph.name target)))

/-- A graph, its mapping data and the tables made so far. -/
structure Catalog where
  graph : Graph
  tree : Tree
  tables : Keyed (Nat × Nat) RenameTable
  deriving Repr

namespace Catalog

def ofTree (graph : Graph) (tree : Tree) : Catalog := ⟨graph, tree, []⟩

def fingerprint (catalog : Catalog) : String := catalog.tree.fingerprint

/-- The table of a pair. A table that cannot be made is not kept. -/
def table (catalog : Catalog) (source target : Nat) :
    Except RequestError RenameTable × Catalog :=
  match catalog.tables.get? (source, target) with
  | some found => (.ok found, catalog)
  | none =>
      match makeTable catalog.graph catalog.tree source target with
      | .ok made =>
          (.ok made, { catalog with tables := catalog.tables.put (source, target) made })
      | .error fault => (.error fault, catalog)

def invalidate (catalog : Catalog) : Catalog := { catalog with tables := [] }

end Catalog

end ArchiveRemap
