import ArchiveRemap.Proofs.Namespace.Fallback
import ArchiveRemap.Proofs.Tiny.Merge
import ArchiveRemap.Proofs.Tiny.Naming

/-!
Columns that are looked up. Merging looks into rows by the columns of the incoming namespaces, and
making a table by the columns of a fallback line. Here merging is done with every look-up checked,
and has no result where one misses. After any texts were read and any merges were asked for, rows
are as wide as the header of their tree, so no look-up misses.
-/

namespace ArchiveRemap

namespace Keyed

universe u v

variable {κ : Type u} {α : Type v} [DecidableEq κ]

theorem adjust_eq_put (key : κ) (start : α) (change : α → α) (entries : Keyed κ α) :
    adjust key start change entries = put key (change ((get? key entries).getD start)) entries := by
  induction entries with
  | nil => rfl
  | cons head rest ih =>
      obtain ⟨own, value⟩ := head
      by_cases same : own = key
      · simp [adjust, put, get?, same]
      · simp [adjust, put, get?, same, ih]

end Keyed

namespace Tiny

/-! Merging where every column has to be there. -/

/-- Put a name into an empty place of a row, if the row has the place. -/
def Row.settle? (row : Row) (name : Option String) (column : Nat) : Option Row :=
  (row[column]?).map fun own => if own.isNone then row.set column name else row

def Row.fill? (row incoming : Row) (columns : List Nat) : Option Row :=
  (incoming.zip columns).foldlM (fun done (name, column) => done.settle? name column) row

def mergeMember? (columns : List Nat) (width : Nat) (member : MemberRow) :
    List MemberRow → Option (List MemberRow)
  | [] => ((emptyRow width).fill? member.names columns).map fun names => [⟨member.desc, names⟩]
  | known :: rest =>
      if known.desc = member.desc && known.names.firstName = member.names.firstName then
        (known.names.fill? member.names columns).map fun names => { known with names } :: rest
      else (mergeMember? columns width member rest).map fun others => known :: others

def mergeMemberList? (columns : List Nat) (width : Nat) (known incoming : List MemberRow) :
    Option (List MemberRow) :=
  incoming.foldlM (fun done member => mergeMember? columns width member done) known

def mergeClass? (columns : List Nat) (width : Nat) (incoming known : ClassRow) :
    Option ClassRow := do
  let names ← known.names.fill? incoming.names columns
  let fields ← mergeMemberList? columns width known.fields incoming.fields
  let methods ← mergeMemberList? columns width known.methods incoming.methods
  some ⟨names, fields, methods⟩

def mergeClasses? (columns : List Nat) (width : Nat) (classes arriving : Keyed String ClassRow) :
    Option (Keyed String ClassRow) :=
  arriving.foldlM (fun done (key, row) =>
    let known := (done.get? key).getD ⟨emptyRow width, [], []⟩
    (mergeClass? columns width row known).map fun entry => done.put key entry) classes

/-- Merge two trees, with no result where a column is not there. -/
def Tree.merge? (tree other : Tree) : Option (Except (String × String) Tree) :=
  match tree.namespaces with
  | [] => some (.ok other)
  | root :: _ =>
      if other.namespaces.head? = some root then
        let (namespaces, columns) := placeColumns tree.namespaces other.namespaces
        let widened : Keyed String ClassRow :=
          tree.classes.map fun (key, entry) => (key, entry.widen namespaces.length)
        (mergeClasses? columns namespaces.length widened other.classes).map fun classes =>
          .ok ⟨namespaces, classes⟩
      else some (.error (other.namespaces.head?.getD "", root))

/-! Rows that are wide enough. -/

namespace Row

variable {row : Row} {columns : List Nat}

theorem settle?_eq {column : Nat} (inside : column < row.length) (name : Option String) :
    row.settle? name column = some (row.settle name column) := by
  rw [settle?, settle, List.getElem?_eq_getElem inside]
  rfl

theorem fill?_cons (row : Row) (name : Option String) (rest : Row) (column : Nat)
    (others : List Nat) : row.fill? (name :: rest) (column :: others) =
      (row.settle? name column).bind fun done => done.fill? rest others := rfl

theorem fill?_eq (incoming : Row) (placed : ∀ column ∈ columns, column < row.length) :
    row.fill? incoming columns = some (row.fill incoming columns) := by
  induction incoming generalizing row columns with
  | nil => rfl
  | cons name rest ih =>
      cases columns with
      | nil => rfl
      | cons column others =>
          obtain ⟨inside, later⟩ := List.forall_mem_cons.mp placed
          rw [← length_settle row name column] at later
          rw [fill?_cons, settle?_eq inside, Option.bind_some, ih later, fill_cons]

end Row

section Merge

variable {width more : Nat} {others : List Nat}
  (placed : ∀ column ∈ 0 :: others, column < width)

include placed

theorem mergeMember?_eq {member : MemberRow} {known : List MemberRow}
    (shaped : ∀ old ∈ known, old.names.Shaped width) :
    mergeMember? (0 :: others) width member known =
      some (mergeMember (0 :: others) width member known) := by
  induction known with
  | nil =>
      -- A new member starts with a row that is as wide as the others.
      have wide : (emptyRow width).length = width := List.length_replicate
      rw [mergeMember?, Row.fill?_eq _ (wide.symm ▸ placed)]
      rfl
  | cons old rest ih =>
      obtain ⟨first, later⟩ := List.forall_mem_cons.mp shaped
      rw [mergeMember?, mergeMember]
      split
      · rw [Row.fill?_eq _ (first.width.symm ▸ placed)]
        rfl
      · rw [ih later]
        rfl

theorem mergeMemberList?_eq {known incoming : List MemberRow}
    (shaped : ∀ old ∈ known, old.names.Shaped width)
    (arriving : ∀ member ∈ incoming, member.names.Shaped more) :
    mergeMemberList? (0 :: others) width known incoming =
      some (mergeMemberList (0 :: others) width known incoming) := by
  have wide : 0 < width := placed 0 List.mem_cons_self
  induction incoming generalizing known with
  | nil => rfl
  | cons member rest ih =>
      obtain ⟨first, later⟩ := List.forall_mem_cons.mp arriving
      rw [mergeMemberList?, List.foldlM_cons, mergeMember?_eq placed shaped]
      exact ih (shaped_mergeMember first wide shaped) later

theorem mergeClass?_eq {incoming known : ClassRow} (names : known.names.length = width)
    (members : ∀ kind, ∀ member ∈ known.members kind, member.names.Shaped width)
    (arriving : incoming.Shaped more) :
    mergeClass? (0 :: others) width incoming known =
      some (mergeClass (0 :: others) width incoming known) := by
  have fields := mergeMemberList?_eq placed (members .field) (arriving.members .field)
  have methods := mergeMemberList?_eq placed (members .method) (arriving.members .method)
  simp only [ClassRow.members] at fields methods
  rw [mergeClass?, Row.fill?_eq _ (names.symm ▸ placed), fields, methods]
  rfl

end Merge

/-- Classes come in one by one, and what each goes into is as wide as the merged header. -/
theorem mergeClasses?_eq {namespaces : List String} {others : List Nat} {more : Nat}
    {classes arriving : Keyed String ClassRow}
    (placed : ∀ column ∈ 0 :: others, column < namespaces.length)
    (shaped : (Tree.mk namespaces classes).Shaped)
    (keyed : ∀ pair ∈ arriving, pair.1 = pair.2.names.firstName)
    (entries : ∀ pair ∈ arriving, pair.2.Shaped more) :
    mergeClasses? (0 :: others) namespaces.length classes arriving =
      some (Keyed.adjustAll ⟨emptyRow namespaces.length, [], []⟩
        (mergeClass (0 :: others) namespaces.length) classes arriving) := by
  have wide : 0 < namespaces.length := placed 0 List.mem_cons_self
  induction arriving generalizing classes with
  | nil => rfl
  | cons pair rest ih =>
      obtain ⟨key, row⟩ := pair
      obtain ⟨keyFirst, keyRest⟩ := List.forall_mem_cons.mp keyed
      obtain ⟨rowFirst, rowRest⟩ := List.forall_mem_cons.mp entries
      -- A class goes into an empty one, or into one that kept its shape so far.
      have step : mergeClass? (0 :: others) namespaces.length row
          ((classes.get? key).getD ⟨emptyRow namespaces.length, [], []⟩) =
        some (mergeClass (0 :: others) namespaces.length row
          ((classes.get? key).getD ⟨emptyRow namespaces.length, [], []⟩)) := by
        cases found : classes.get? key with
        | none =>
            refine mergeClass?_eq placed List.length_replicate (fun kind => ?_) rowFirst
            cases kind <;> exact fun _ => nofun
        | some entry =>
            have old := shaped.entries _ (Keyed.mem_of_get? found)
            exact mergeClass?_eq placed old.names.width old.members rowFirst
      rw [mergeClasses?, List.foldlM_cons]
      dsimp only
      rw [step, Option.map_some, ← Keyed.adjust_eq_put]
      exact ih (shaped_adjust wide shaped keyFirst rowFirst) keyRest rowRest

namespace Tree

variable {tree other : Tree}

theorem placed_placeColumns (namespaces incoming : List String) :
    ∀ column ∈ (placeColumns namespaces incoming).2,
      column < (placeColumns namespaces incoming).1.length := by
  rw [placeColumns_columns]
  intro column placed
  obtain ⟨space, listed, rfl⟩ := List.mem_map.mp placed
  exact List.idxOf_lt_length_of_mem (mem_placeColumns.mpr (.inr listed))

/-- Where the rows of both trees are as wide as their headers, no column is missed. -/
theorem Shaped.merge?_eq (shaped : tree.Shaped) (arriving : other.Shaped) :
    tree.merge? other = some (tree.merge other) := by
  cases header : tree.namespaces with
  | nil =>
      unfold Tree.merge? Tree.merge
      rw [header]
  | cons root rest =>
      have ours : tree.namespaces.head? = some root := by rw [header, List.head?_cons]
      by_cases theirs : other.namespaces.head? = some root
      · obtain ⟨others, columns, layout⟩ := exists_layout ours theirs
        have made := mergeClasses?_eq layout.placed (shaped.widen layout.known.length_le)
          arriving.keyed arriving.entries
        rw [merge_eq_joined ours theirs, columns]
        unfold Tree.merge?
        rw [header]
        dsimp only
        rw [if_pos theirs, ← header, columns, made]
        rfl
      · rw [merge_eq_error ours theirs]
        unfold Tree.merge?
        rw [header]
        exact if_neg theirs

/-! Making tables. -/

theorem column_lt_of_columnsFor {graph : Graph} {id : Nat} {columns : List Nat}
    (found : columnsFor graph tree id = .ok columns) :
    ∀ column ∈ columns, column < tree.namespaces.length := by
  unfold columnsFor at found
  split at found
  · cases found
  · cases found
    intro column listed
    obtain ⟨link, -, place⟩ := List.mem_filterMap.mp listed
    exact (List.findIdx?_eq_some_iff_getElem.mp place).1

/-! Calls in any order. -/

/-- Mapping data that any calls lead to: texts are read, and merges are asked for whether they
succeed or not. -/
inductive Reached : Tree → Prop where
  | empty : Reached .empty
  | parsed {origin text : String} {tree : Tree} (read : Tree.parse origin text = .ok tree) :
      Reached tree
  | asked {tree other : Tree} (left : Reached tree) (right : Reached other) :
      Reached (tree.afterMerge other)

theorem Reached.built (reached : tree.Reached) : tree.Built := by
  induction reached with
  | empty => exact .empty
  | parsed read => exact .parsed read
  | @asked tree other _ _ left right =>
      unfold afterMerge
      cases done : tree.merge other with
      | error roots => exact left
      | ok merged => exact .merged left right done

/-- Whatever calls were made, every row is as wide as the header and has a name in the first
namespace, and a class lies under that name. No column that merging or making a table looks up is
missing in a row, and no link of a fallback line is missing in its graph. -/
theorem Reached.columns_in_range (reached : tree.Reached) :
    tree.Shaped ∧
    (∀ other : Tree, other.Reached →
      (∀ column ∈ (placeColumns tree.namespaces other.namespaces).2,
        column < (placeColumns tree.namespaces other.namespaces).1.length) ∧
      tree.merge? other = some (tree.merge other)) ∧
    (∀ (graph : Graph) (id : Nat) (columns : List Nat),
      columnsFor graph tree id = .ok columns → ∀ column ∈ columns, ∀ pair ∈ tree.classes,
        column < pair.2.names.length ∧
          ∀ kind, ∀ member ∈ pair.2.members kind, column < member.names.length) ∧
    (∀ (declarations : List Declaration) (graph : Graph), Graph.build declarations = .ok graph →
      ∀ id ∈ graph.ids, ∀ link ∈ graph.fallbackLine id, link ∈ graph.ids) := by
  have shaped := reached.built.shaped
  refine ⟨shaped, fun other arriving => ⟨placed_placeColumns _ _,
    shaped.merge?_eq arriving.built.shaped⟩, ?_, ?_⟩
  · intro graph id columns found column listed pair there
    have inside := column_lt_of_columnsFor found column listed
    have entry := shaped.entries pair there
    refine ⟨entry.names.width.symm ▸ inside, fun kind member known => ?_⟩
    exact (entry.members kind member known).width.symm ▸ inside
  · intro declarations graph built id known link listed
    have made := (Graph.madeFrom_of_build built).1
    exact Graph.firstDependencies_subset made.closed known graph.size listed

/-! A text of another root, which is refused. -/

def strayText : String := "tiny\t2\t0\tb\ta\nc\tB\tA\n"

def strayTree : Tree := ⟨["b", "a"], [("B", ⟨[some "B", some "A"], [], []⟩)]⟩

/-- After a merge with two columns of one name, and a merge that was refused. -/
theorem Reached.columns_in_range_refused :
    ((sharedTree.afterMerge moreTree).afterMerge strayTree = unitedTree ∧
      unitedTree.Reached ∧ moreTree.Reached ∧
      columnsFor Graph.pair unitedTree 1 = .ok [1, 0]) ∧
    unitedTree.Shaped ∧ unitedTree.merge? moreTree = some (.ok unitedTree) ∧
      ∀ column ∈ [1, 0], ∀ pair ∈ unitedTree.classes, column < pair.2.names.length := by
  have shared : Tree.parse "shared.tiny" sharedText = .ok sharedTree := by decide +kernel
  have more : Tree.parse "more.tiny" moreText = .ok moreTree := by decide +kernel
  have stray : Tree.parse "stray.tiny" strayText = .ok strayTree := by decide +kernel
  have merged : (sharedTree.afterMerge moreTree).afterMerge strayTree = unitedTree := by
    decide +kernel
  have united : unitedTree.Reached :=
    merged ▸ .asked (.asked (.parsed shared) (.parsed more)) (.parsed stray)
  have again : unitedTree.merge moreTree = .ok unitedTree := by decide +kernel
  have columns : columnsFor Graph.pair unitedTree 1 = .ok [1, 0] := by decide +kernel
  obtain ⟨shaped, merges, tables, -⟩ := Reached.columns_in_range united
  exact ⟨⟨merged, united, .parsed more, columns⟩, shaped,
    again ▸ (merges moreTree (.parsed more)).2,
    fun column listed pair there => (tables _ _ _ columns column listed pair there).1⟩

end Tree

end Tiny

end ArchiveRemap
