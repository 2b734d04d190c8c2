import ArchiveRemap.Tiny.Tree

/-!
Merging mapping data. Two trees with the same first namespace are merged symbol by symbol,
symbols being the same when their names in it are. Namespaces that the first tree lacks
become new columns at its end. A name that is there is kept, an empty place is filled.
-/

namespace ArchiveRemap.Tiny

/-- Where each incoming namespace goes: all namespaces, and a column for each one. -/
def placeColumns (namespaces : List String) : List String → List String × List Nat
  | [] => (namespaces, [])
  | name :: rest =>
      match namespaces.findIdx? (· = name) with
      | some column =>
          let (all, columns) := placeColumns namespaces rest
          (all, column :: columns)
      | none =>
          let (all, columns) := placeColumns (namespaces ++ [name]) rest
          (all, namespaces.length :: columns)

/-- Put the names of a row into the empty places of another, each into its column. -/
def Row.fill (row incoming : Row) (columns : List Nat) : Row :=
  (incoming.zip columns).foldl (fun done (name, column) =>
    if ((done[column]?).bind id).isNone then done.set column name else done) row

def emptyRow (width : Nat) : Row := List.replicate width none

/-- Merge one member into the first one with its descriptor and first name. -/
def mergeMember (columns : List Nat) (width : Nat) (member : MemberRow) :
    List MemberRow → List MemberRow
  | [] => [⟨member.desc, (emptyRow width).fill member.names columns⟩]
  | known :: rest =>
      if known.desc = member.desc && known.names.firstName = member.names.firstName then
        { known with names := known.names.fill member.names columns } :: rest
      else known :: mergeMember columns width member rest

def mergeMemberList (columns : List Nat) (width : Nat) (known incoming : List MemberRow) :
    List MemberRow :=
  incoming.foldl (fun done member => mergeMember columns width member done) known

def mergeClass (columns : List Nat) (width : Nat) (incoming known : ClassRow) : ClassRow :=
  { names := known.names.fill incoming.names columns
    fields := mergeMemberList columns width known.fields incoming.fields
    methods := mergeMemberList columns width known.methods incoming.methods }

def ClassRow.widen (width : Nat) (entry : ClassRow) : ClassRow :=
  let widenMember (member : MemberRow) : MemberRow :=
    { member with names := member.names.widen width }
  ⟨entry.names.widen width, entry.fields.map widenMember, entry.methods.map widenMember⟩

/-- The merged tree, or the two first namespaces when they differ, the other tree's first. -/
def Tree.merge (tree other : Tree) : Except (String × String) Tree :=
  match tree.namespaces with
  | [] => .ok other
  | root :: _ =>
      if other.namespaces.head? = some root then
        let (namespaces, columns) := placeColumns tree.namespaces other.namespaces
        let width := namespaces.length
        let widened : Keyed String ClassRow :=
          tree.classes.map fun (key, entry) => (key, entry.widen width)
        let place (done : Keyed String ClassRow) (key : String) (incoming : ClassRow) :=
          done.adjust key ⟨emptyRow width, [], []⟩ (mergeClass columns width incoming)
        .ok ⟨namespaces, other.classes.foldl (fun done (key, row) => place done key row) widened⟩
      else .error (other.namespaces.head?.getD "", root)

end ArchiveRemap.Tiny
