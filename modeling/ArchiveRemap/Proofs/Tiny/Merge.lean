import ArchiveRemap.Proofs.Tiny.Fill
import ArchiveRemap.Proofs.Tiny.Placing

/-!
What merging comes to. The merged data has the namespaces, the classes and the members of the
first tree in their places, and what only the second one has behind them. For every symbol and
every namespace a name of the first tree stays, and a missing one is the first that the second
tree has. Merging the second tree once more changes nothing.
-/

namespace ArchiveRemap.Tiny

/-! Symbols and their names. -/

/-- What a symbol is known by: a class by its first name, a member by its class, its kind, its
descriptor and its first name. -/
inductive SymbolKey where
  | ofClass (name : String)
  | ofMember (owner : String) (kind : MemberKind) (desc name : String)
  deriving DecidableEq, Repr

namespace Tree

def membersOf (tree : Tree) (owner : String) (kind : MemberKind) : List MemberRow :=
  ((tree.class? owner).map (·.members kind)).getD []

/-- The rows of a symbol in their order. A class has one, a member may come several times. -/
def rowsOf (tree : Tree) : SymbolKey → List Row
  | .ofClass name => (tree.class? name).toList.map (·.names)
  | .ofMember owner kind desc name =>
      ((tree.membersOf owner kind).filter (MemberRow.fits desc name)).map (·.names)

/-- The name of a symbol in a namespace, from its first row and the column of the namespace. -/
def name? (tree : Tree) (symbol : SymbolKey) (space : String) : Option String :=
  (tree.column? space).bind fun column => (tree.rowsOf symbol).head?.bind (·.nameAt? column)

/-- All names of a symbol in the columns of a namespace, row by row. -/
def names (tree : Tree) (symbol : SymbolKey) (space : String) : List String :=
  (tree.rowsOf symbol).flatMap (·.under tree.namespaces space)

variable {tree other : Tree}

theorem Shaped.ofClass (shaped : tree.Shaped) {key : String} {entry : ClassRow}
    (found : tree.class? key = some entry) : entry.Shaped tree.namespaces.length :=
  shaped.entries _ (Keyed.mem_of_get? found)

theorem Shaped.ofMembers (shaped : tree.Shaped) (owner : String) (kind : MemberKind) :
    ∀ member ∈ tree.membersOf owner kind, member.names.Shaped tree.namespaces.length := by
  unfold membersOf
  cases found : tree.class? owner with
  | none => exact fun _ => nofun
  | some entry => exact (shaped.ofClass found).members kind

theorem Shaped.ofRow (shaped : tree.Shaped) {symbol : SymbolKey} {row : Row}
    (listed : row ∈ tree.rowsOf symbol) : row.Shaped tree.namespaces.length := by
  cases symbol with
  | ofClass name =>
      obtain ⟨entry, found, rfl⟩ := List.mem_map.mp listed
      exact (shaped.ofClass (Option.mem_toList.mp found)).names
  | ofMember owner kind desc name =>
      obtain ⟨member, fitting, rfl⟩ := List.mem_map.mp listed
      exact shaped.ofMembers owner kind member (List.mem_filter.mp fitting).1

theorem head?_rowsOf_ofClass (name : String) (column : Nat) :
    (tree.rowsOf (.ofClass name)).head?.bind (·.nameAt? column) =
      (tree.class? name).bind (·.names.nameAt? column) := by
  rw [rowsOf]
  cases tree.class? name <;> rfl

theorem head?_rowsOf_ofMember (owner : String) (kind : MemberKind) (desc name : String)
    (column : Nat) : (tree.rowsOf (.ofMember owner kind desc name)).head?.bind (·.nameAt? column) =
      MemberRow.nameAt? desc name (tree.membersOf owner kind) column := by
  rw [rowsOf, List.head?_map, List.head?_filter]
  rfl

theorem name?_of_not_mem {space : String} (missing : space ∉ tree.namespaces)
    (symbol : SymbolKey) : tree.name? symbol space = none := by
  rw [name?, column?, findIdx?_eq_idxOf, if_neg missing, Option.bind_none]

/-- A name by the column that its namespace has among more namespaces. -/
theorem Shaped.name?_eq (shaped : tree.Shaped) {all : List String}
    (known : tree.namespaces <+: all) (symbol : SymbolKey) {space : String} (listed : space ∈ all) :
    tree.name? symbol space =
      (tree.rowsOf symbol).head?.bind (·.nameAt? (all.idxOf space)) := by
  obtain ⟨more, rfl⟩ := known
  by_cases own : space ∈ tree.namespaces
  · rw [name?, column?, findIdx?_eq_idxOf, if_pos own, Option.bind_some,
      List.idxOf_append_of_mem own]
  · rw [name?_of_not_mem own, List.idxOf_append_of_notMem own]
    -- The column is behind all columns of the row.
    cases found : (tree.rowsOf symbol).head? with
    | none => rfl
    | some row =>
        have wide := (shaped.ofRow (List.mem_of_head? found)).width
        rw [Option.bind_some, Row.nameAt?, List.getElem?_eq_none (by omega), Option.bind_none]

end Tree

/-! Widening. -/

theorem ClassRow.members_widen (entry : ClassRow) (width : Nat) (kind : MemberKind) :
    (entry.widen width).members kind =
      (entry.members kind).map fun member => { member with names := member.names.widen width } := by
  cases kind <;> rfl

theorem Row.Shaped.widen_self {row : Row} {width : Nat} (shaped : row.Shaped width) :
    row.widen width = row := by
  rw [Row.widen, shaped.width, Nat.sub_self, List.replicate_zero, List.append_nil]

theorem ClassRow.Shaped.widen_self {entry : ClassRow} {width : Nat} (shaped : entry.Shaped width) :
    entry.widen width = entry := by
  have same : ∀ kind, ∀ member ∈ entry.members kind,
      { member with names := member.names.widen width } = member := by
    intro kind member listed
    rw [(shaped.members kind member listed).widen_self]
  have fields : entry.fields.map _ = entry.fields :=
    (List.map_congr_left (same .field)).trans (List.map_id' _)
  have methods : entry.methods.map _ = entry.methods :=
    (List.map_congr_left (same .method)).trans (List.map_id' _)
  unfold ClassRow.widen
  dsimp only
  rw [shaped.names.widen_self, fields, methods]

namespace MemberRow

theorem nameAt?_widen {members : List MemberRow} {width : Nat} (desc first : String)
    (more column : Nat) (shaped : ∀ member ∈ members, member.names.Shaped width) :
    nameAt? desc first
        (members.map fun member => { member with names := member.names.widen more }) column =
      nameAt? desc first members column := by
  induction members with
  | nil => rfl
  | cons member rest ih =>
      obtain ⟨head, later⟩ := List.forall_mem_cons.mp shaped
      have named := Row.firstName_eq (Row.head?_widen head more)
      have behind := ih later
      unfold nameAt? at behind ⊢
      rw [List.map_cons, firstRow?_cons, firstRow?_cons]
      by_cases fitting : member.fits desc first = true
      · have wide : fits desc first { member with names := member.names.widen more } = true := by
          rwa [fits, named]
        rw [if_pos wide, if_pos fitting]
        exact Row.nameAt?_widen ..
      · have wide : ¬fits desc first { member with names := member.names.widen more } = true := by
          rwa [fits, named]
        rw [if_neg wide, if_neg fitting, behind]

theorem keeps_widen (members : List MemberRow) (width : Nat) :
    Keeps (members.map fun member => { member with names := member.names.widen width })
      members := by
  intro place old there
  refine ⟨{ old with names := old.names.widen width }, ?_, rfl, Row.extends_widen _ _⟩
  rw [List.getElem?_map, there]
  rfl

end MemberRow

/-! One class. -/

section Classes

variable {width more : Nat} {others : List Nat}

theorem Row.absorbs_fill {row : Row} {columns : List Nat} (incoming : Row)
    (placed : ∀ column ∈ columns, column < row.length) :
    (row.fill incoming columns).Absorbs incoming columns := by
  intro column offered
  rw [Row.nameAt?_fill, if_pos (placed column (Row.mem_of_under_ne_nil offered)), Ne,
    Option.or_eq_none_iff, List.head?_eq_none_iff]
  exact fun none => offered none.2

/-- A class that was taken before changes nothing. -/
theorem mergeClass_again {incoming known : ClassRow}
    (placed : ∀ column ∈ 0 :: others, column < width) (wide : known.names.length = width)
    (shaped : ∀ kind, ∀ member ∈ known.members kind, member.names.Shaped width)
    (arriving : incoming.Shaped more) :
    mergeClass (0 :: others) width incoming (mergeClass (0 :: others) width incoming known) =
      mergeClass (0 :: others) width incoming known := by
  have names := Row.fill_of_absorbs (Row.absorbs_fill incoming.names (wide ▸ placed))
  have members : ∀ kind, mergeMemberList (0 :: others) width
      (mergeMemberList (0 :: others) width (known.members kind) (incoming.members kind))
        (incoming.members kind) =
      mergeMemberList (0 :: others) width (known.members kind) (incoming.members kind) :=
    fun kind => mergeMemberList_of_absorbs
      (absorbs_mergeMemberList placed (shaped kind) (arriving.members kind))
  have fields := members .field
  have methods := members .method
  simp only [ClassRow.members] at fields methods
  simp only [mergeClass, names, fields, methods]

end Classes

/-! Two trees. -/

namespace Tree

variable {tree other : Tree} {namespaces : List String} {others : List Nat}

/-- The classes of two trees in the columns that were found for them. -/
def joined (tree other : Tree) (namespaces : List String) (columns : List Nat) : Tree :=
  ⟨namespaces, Keyed.adjustAll ⟨emptyRow namespaces.length, [], []⟩
    (mergeClass columns namespaces.length)
    (tree.classes.map fun (key, entry) => (key, entry.widen namespaces.length)) other.classes⟩

/-- Columns for two trees: those of the first one stay, and every namespace of the other one goes
to the first column of its name. -/
structure Layout (tree other : Tree) (namespaces : List String) (others : List Nat) : Prop where
  known : tree.namespaces <+: namespaces
  listed : ∀ space ∈ other.namespaces, space ∈ namespaces
  columns : 0 :: others = other.namespaces.map fun space => namespaces.idxOf space

theorem Layout.placed (layout : Layout tree other namespaces others) :
    ∀ column ∈ 0 :: others, column < namespaces.length := by
  intro column there
  rw [layout.columns] at there
  obtain ⟨space, named, rfl⟩ := List.mem_map.mp there
  exact List.idxOf_lt_length_of_mem (layout.listed space named)

/-- What an incoming row has for a column is what it has in the namespace of the column. -/
theorem Layout.under_columns (layout : Layout tree other namespaces others) (row : Row)
    (space : String) :
    row.under (0 :: others) (namespaces.idxOf space) = row.under other.namespaces space := by
  rw [layout.columns]
  exact Row.under_map row fun own named same =>
    (List.idxOf_inj (layout.listed own named)).mp same

/-! The class that the names of another one go into: the own one with the new columns, or an
empty one. -/

def target (tree : Tree) (width : Nat) (key : String) : ClassRow :=
  ((tree.class? key).map (·.widen width)).getD ⟨emptyRow width, [], []⟩

theorem nameAt?_target (width : Nat) (key : String) (column : Nat) :
    (tree.target width key).names.nameAt? column =
      (tree.rowsOf (.ofClass key)).head?.bind (·.nameAt? column) := by
  rw [head?_rowsOf_ofClass, target]
  cases tree.class? key with
  | none => exact Row.nameAt?_emptyRow width column
  | some entry => exact Row.nameAt?_widen entry.names width column

theorem members_target (width : Nat) (key : String) (kind : MemberKind) :
    (tree.target width key).members kind = (tree.membersOf key kind).map fun member =>
      { member with names := member.names.widen width } := by
  unfold target membersOf
  cases tree.class? key with
  | none => cases kind <;> rfl
  | some entry => exact entry.members_widen width kind

variable {width : Nat}

theorem Shaped.length_target (shaped : tree.Shaped) (wider : tree.namespaces.length ≤ width)
    (key : String) : (tree.target width key).names.length = width := by
  unfold target
  cases found : tree.class? key with
  | none => exact List.length_replicate
  | some entry => exact ((shaped.ofClass found).widen wider).names.width

theorem Shaped.members_target (shaped : tree.Shaped) (wider : tree.namespaces.length ≤ width)
    (key : String) (kind : MemberKind) :
    ∀ member ∈ (tree.target width key).members kind, member.names.Shaped width := by
  rw [Tree.members_target]
  intro made listed
  obtain ⟨member, there, rfl⟩ := List.mem_map.mp listed
  exact (shaped.ofMembers key kind member there).widen wider

/-! What is joined. -/

theorem class?_joined (arriving : other.Shaped) (columns : List Nat) (key : String) :
    (tree.joined other namespaces columns).class? key =
      match other.class? key with
      | some row =>
          some (mergeClass columns namespaces.length row (tree.target namespaces.length key))
      | none => (tree.class? key).map (·.widen namespaces.length) := by
  unfold target class? joined
  rw [Keyed.get?_adjustAll arriving.distinct, Keyed.get?_map]
  cases Keyed.get? key other.classes <;> rfl

theorem membersOf_joined (arriving : other.Shaped) (columns : List Nat) (owner : String)
    (kind : MemberKind) : (tree.joined other namespaces columns).membersOf owner kind =
      mergeMemberList columns namespaces.length
        ((tree.target namespaces.length owner).members kind) (other.membersOf owner kind) := by
  rw [members_target]
  unfold membersOf
  rw [class?_joined arriving]
  cases theirs : other.class? owner with
  | some row => 
      simp only [Option.map_some, Option.getD_some]
      rw [members_mergeClass, members_target, membersOf]
  | none =>
      cases ours : tree.class? owner with
      | none => rfl
      | some entry => exact entry.members_widen _ kind

/-- What a symbol is named in a column: as before, or else by the first name that comes. -/
theorem head?_rowsOf_joined (shaped : tree.Shaped) (arriving : other.Shaped) {column : Nat}
    (inside : column < namespaces.length) (wider : tree.namespaces.length ≤ namespaces.length)
    (symbol : SymbolKey) :
    ((tree.joined other namespaces (0 :: others)).rowsOf symbol).head?.bind (·.nameAt? column) =
      ((tree.rowsOf symbol).head?.bind (·.nameAt? column)).or
        ((other.rowsOf symbol).flatMap (·.under (0 :: others) column)).head? := by
  cases symbol with
  | ofClass name =>
      have incoming : other.rowsOf (.ofClass name) = (other.class? name).toList.map (·.names) := rfl
      rw [head?_rowsOf_ofClass, class?_joined arriving, incoming]
      cases other.class? name with
      | some row =>
          rw [Option.bind_some, mergeClass, Row.nameAt?_fill, nameAt?_target,
            shaped.length_target wider, if_pos inside, Option.toList_some, List.map_singleton,
            List.flatMap_singleton]
      | none =>
          rw [head?_rowsOf_ofClass, Option.toList_none, List.map_nil, List.flatMap_nil,
            List.head?_nil, Option.or_none]
          cases tree.class? name with
          | none => rfl
          | some entry => exact Row.nameAt?_widen entry.names _ column
  | ofMember owner kind desc name =>
      rw [head?_rowsOf_ofMember, head?_rowsOf_ofMember, membersOf_joined arriving,
        nameAt?_mergeMemberList inside (shaped.members_target wider owner kind)
          (arriving.ofMembers owner kind), members_target,
        MemberRow.nameAt?_widen _ _ _ _ (shaped.ofMembers owner kind), rowsOf, List.flatMap_map]

theorem name?_joined (layout : Layout tree other namespaces others) (shaped : tree.Shaped)
    (arriving : other.Shaped) (made : (tree.joined other namespaces (0 :: others)).Shaped)
    (symbol : SymbolKey) (space : String) :
    (tree.joined other namespaces (0 :: others)).name? symbol space =
      (tree.name? symbol space).or (other.names symbol space).head? := by
  by_cases there : space ∈ namespaces
  · have offered : (other.rowsOf symbol).flatMap
        (·.under (0 :: others) (namespaces.idxOf space)) = other.names symbol space :=
      congrArg (other.rowsOf symbol).flatMap (funext fun row => layout.under_columns row space)
    rw [made.name?_eq (List.prefix_refl _) symbol there, shaped.name?_eq layout.known symbol there,
      ← offered]
    exact head?_rowsOf_joined shaped arriving (List.idxOf_lt_length_of_mem there)
      layout.known.length_le symbol
  · -- Neither tree has the namespace.
    have missing : other.names symbol space = [] := by
      refine List.flatMap_eq_nil_iff.mpr fun row _ => ?_
      by_contra offered
      exact there (layout.listed space (Row.mem_of_under_ne_nil offered))
    rw [name?_of_not_mem there, name?_of_not_mem fun own => there (layout.known.subset own),
      missing]
    rfl

/-- An entry of the first tree stays, and so do its members in their places. -/
theorem keeps_joined (arriving : other.Shaped) (columns : List Nat) {key : String}
    {entry : ClassRow} (found : tree.class? key = some entry) :
    ∃ merged, (tree.joined other namespaces columns).class? key = some merged ∧
      merged.names.Extends entry.names ∧
        ∀ kind, MemberRow.Keeps (merged.members kind) (entry.members kind) := by
  have wide : ∀ kind, MemberRow.Keeps ((entry.widen namespaces.length).members kind)
      (entry.members kind) := by
    intro kind
    rw [ClassRow.members_widen]
    exact MemberRow.keeps_widen _ _
  rw [class?_joined arriving, target, found]
  cases other.class? key with
  | none => exact ⟨_, rfl, Row.extends_widen _ _, wide⟩
  | some row =>
      refine ⟨_, rfl, (Row.extends_fill _ _ _).trans (Row.extends_widen _ _), fun kind => ?_⟩
      rw [members_mergeClass]
      exact (keeps_mergeMemberList _ _ _ _).trans (wide kind)

/-- What was joined once is not changed by joining the same tree again. -/
theorem joined_again (layout : Layout tree other namespaces others) (shaped : tree.Shaped)
    (arriving : other.Shaped) (made : (tree.joined other namespaces (0 :: others)).Shaped) :
    (tree.joined other namespaces (0 :: others)).joined other namespaces (0 :: others) =
      tree.joined other namespaces (0 :: others) := by
  have wide : (tree.joined other namespaces (0 :: others)).classes.map
      (fun (key, entry) => (key, entry.widen namespaces.length)) =
      (tree.joined other namespaces (0 :: others)).classes := by
    refine (List.map_congr_left fun pair listed => ?_).trans (List.map_id' _)
    exact congrArg (Prod.mk pair.1) (made.entries pair listed).widen_self
  rw [joined, wide]
  refine congrArg (Tree.mk namespaces) (Keyed.adjustAll_of_fixed fun pair listed => ?_)
  have theirs : other.class? pair.1 = some pair.2 := Keyed.get?_of_mem arriving.distinct listed
  have found : (tree.joined other namespaces (0 :: others)).class? pair.1 = _ :=
    class?_joined arriving (0 :: others) pair.1
  rw [theirs] at found
  exact ⟨_, found, mergeClass_again layout.placed
    (shaped.length_target layout.known.length_le pair.1)
    (shaped.members_target layout.known.length_le pair.1) (arriving.entries pair listed)⟩

/-! Merging. -/

section Root

variable {root : String} (ours : tree.namespaces.head? = some root)
  (theirs : other.namespaces.head? = some root)

include ours theirs

theorem exists_layout : ∃ others,
    (placeColumns tree.namespaces other.namespaces).2 = 0 :: others ∧
      Layout tree other (placeColumns tree.namespaces other.namespaces).1 others := by
  obtain ⟨more, header⟩ := List.head?_eq_some_iff.mp ours
  obtain ⟨rest, incoming⟩ := List.head?_eq_some_iff.mp theirs
  have first : (placeColumns tree.namespaces other.namespaces).2 =
      0 :: (placeColumns tree.namespaces rest).2 := by
    rw [header, incoming, placeColumns_of_root]
  exact ⟨_, first, keeps_placeColumns _ _, fun space listed => mem_placeColumns.mpr (.inr listed),
    first.symm.trans (placeColumns_columns _ _)⟩

theorem merge_eq_joined : tree.merge other =
    .ok (tree.joined other (placeColumns tree.namespaces other.namespaces).1
      (placeColumns tree.namespaces other.namespaces).2) := by
  obtain ⟨more, header⟩ := List.head?_eq_some_iff.mp ours
  unfold merge
  rw [header]
  dsimp only
  rw [if_pos theirs]
  rfl

end Root

theorem merge_eq_error {root : String} (ours : tree.namespaces.head? = some root)
    (differ : other.namespaces.head? ≠ some root) :
    tree.merge other = .error (other.namespaces.head?.getD "", root) := by
  obtain ⟨more, header⟩ := List.head?_eq_some_iff.mp ours
  unfold merge
  rw [header]
  exact if_neg differ

/-- What is there after a merge was asked for. A merge that fails leaves the tree. -/
def afterMerge (tree other : Tree) : Tree :=
  (tree.merge other).toOption.getD tree

/-- Everything of two trees, where what the first one has stays as and where it is. -/
structure Unites (tree other merged : Tree) : Prop where
  namespaces : merged.namespaces = tree.namespaces ++
    (other.namespaces.filter (· ∉ tree.namespaces)).eraseDups
  classes : merged.classes.keys = tree.classes.keys ++
    other.classes.keys.filter (· ∉ tree.classes.keys)
  names : ∀ symbol space,
    merged.name? symbol space = (tree.name? symbol space).or (other.names symbol space).head?
  kept : ∀ key entry, tree.class? key = some entry →
    ∃ new, merged.class? key = some new ∧ new.names.Extends entry.names ∧
      ∀ kind, MemberRow.Keeps (new.members kind) (entry.members kind)
  settled : merged.merge other = .ok merged

theorem unites_merge {root : String} {merged : Tree} (shaped : tree.Shaped)
    (arriving : other.Shaped) (ours : tree.namespaces.head? = some root)
    (theirs : other.namespaces.head? = some root) (done : tree.merge other = .ok merged) :
    Unites tree other merged := by
  obtain ⟨others, columns, layout⟩ := exists_layout ours theirs
  have made := shaped.merge arriving done
  rw [merge_eq_joined ours theirs, columns, Except.ok.injEq] at done
  subst done
  refine ⟨placeColumns_namespaces _ _, ?_, name?_joined layout shaped arriving made,
    fun key entry found => keeps_joined arriving _ found, ?_⟩
  · rw [joined, Keyed.keys_adjustAll arriving.distinct, Keyed.keys, List.map_map]
    rfl
  · have header : (tree.joined other (placeColumns tree.namespaces other.namespaces).1
        (0 :: others)).namespaces.head? = some root := by
      obtain ⟨more, split⟩ := layout.known
      rw [joined, ← split, List.head?_append, ours]
      rfl
    have again := merge_eq_joined header theirs
    have placed : placeColumns (tree.joined other
        (placeColumns tree.namespaces other.namespaces).1 (0 :: others)).namespaces
        other.namespaces = placeColumns tree.namespaces other.namespaces :=
      placeColumns_again _ _
    rw [again, placed, columns, joined_again layout shaped arriving made]

/-- Trees merge when their first namespaces are the same, and the merged one unites them. -/
theorem Built.merge_unites (left : tree.Built) (right : other.Built)
    (rooted : tree.namespaces ≠ []) :
    ((∃ fault, tree.merge other = .error fault) ↔
        tree.namespaces.head? ≠ other.namespaces.head?) ∧
      (tree.namespaces.head? ≠ other.namespaces.head? → tree.afterMerge other = tree) ∧
      (tree.namespaces.head? = other.namespaces.head? →
        ∃ merged, tree.merge other = .ok merged ∧ Unites tree other merged) := by
  obtain ⟨root, ours⟩ := Option.isSome_iff_exists.mp (List.isSome_head?.mpr rooted)
  have fails : tree.namespaces.head? ≠ other.namespaces.head? →
      tree.merge other = .error (other.namespaces.head?.getD "", root) := fun differ =>
    merge_eq_error ours fun same => differ (ours.trans same.symm)
  have succeeds : tree.namespaces.head? = other.namespaces.head? →
      ∃ merged, tree.merge other = .ok merged ∧ Unites tree other merged := fun same =>
    have done := merge_eq_joined ours (same.symm.trans ours)
    ⟨_, done, unites_merge left.shaped right.shaped ours (same.symm.trans ours) done⟩
  refine ⟨⟨fun ⟨fault, failed⟩ same => ?_, fun differ => ⟨_, fails differ⟩⟩, fun differ => ?_,
    succeeds⟩
  · obtain ⟨merged, done, -⟩ := succeeds same
    rw [done] at failed
    cases failed
  · rw [afterMerge, fails differ]
    rfl

/-! Two texts with a namespace in common behind the first one. The second one has two columns of
one name, a member in two entries, and a class of its own. -/

def sharedText : String :=
  "tiny\t2\t0\ta\tb\nc\tA\tB\n\tf\tI\tx\n\tm\t()V\tx\ty\n"

def sharedTree : Tree :=
  ⟨["a", "b"], [("A", ⟨[some "A", some "B"], [⟨"I", [some "x", none]⟩],
    [⟨"()V", [some "x", some "y"]⟩]⟩)]⟩

def moreText : String :=
  "tiny\t2\t0\ta\tc\tb\tc\nc\tN\nc\tA\t\tC\tD\n\tf\tI\tx\n\tf\tI\tx\t\tp\tq\n"

def moreTree : Tree :=
  ⟨["a", "c", "b", "c"], [("N", ⟨[some "N", none, none, none], [], []⟩),
    ("A", ⟨[some "A", none, some "C", some "D"], [⟨"I", [some "x", none, none, none]⟩,
      ⟨"I", [some "x", none, some "p", some "q"]⟩], []⟩)]⟩

def unitedTree : Tree :=
  ⟨["a", "b", "c"], [("A", ⟨[some "A", some "B", some "D"], [⟨"I", [some "x", some "p", some "q"]⟩],
    [⟨"()V", [some "x", some "y", none]⟩]⟩), ("N", ⟨[some "N", none, none], [], []⟩)]⟩

theorem Built.merge_unites_overlapping :
    (Tree.parse "shared.tiny" sharedText = .ok sharedTree ∧
      Tree.parse "more.tiny" moreText = .ok moreTree) ∧
    sharedTree.merge moreTree = .ok unitedTree ∧ Unites sharedTree moreTree unitedTree := by
  have left : Tree.parse "shared.tiny" sharedText = .ok sharedTree := by decide +kernel
  have right : Tree.parse "more.tiny" moreText = .ok moreTree := by decide +kernel
  have done : sharedTree.merge moreTree = .ok unitedTree := by decide +kernel
  obtain ⟨merged, found, unites⟩ :=
    (Built.merge_unites (.parsed left) (.parsed right) (by decide)).2.2 rfl
  rw [done, Except.ok.injEq] at found
  exact ⟨⟨left, right⟩, done, found ▸ unites⟩

end Tree

end ArchiveRemap.Tiny
