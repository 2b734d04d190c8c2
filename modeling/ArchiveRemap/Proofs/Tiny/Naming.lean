import ArchiveRemap.Proofs.RenameTable.Compose
import ArchiveRemap.Proofs.Symbol.Descriptor
import ArchiveRemap.Proofs.Tiny.Catalog
import ArchiveRemap.Proofs.Tiny.Shape
import Mathlib.Data.List.Basic

/-!
Names along fallback chains. A symbol goes by the first name that the columns of a namespace
have for it. Where no two symbols go by one name, the table between two namespaces holds each
symbol that goes by a name in both, and going over a third namespace leads to the same names.
-/

namespace ArchiveRemap

open Tiny Descriptor

/-- The columns of a namespace and of the namespaces it borrows from. -/
def columnsOf (graph : Graph) (tree : Tree) (id : Nat) : List Nat :=
  (graph.fallbackLine id).filterMap fun link => tree.column? (graph.name link)

namespace Tiny.Tree

variable {tree : Tree} {columns : List Nat}

/-- What the class of a first name goes by. -/
def nameIn (tree : Tree) (columns : List Nat) (first : String) : Option String :=
  (tree.class? first).bind fun entry => entry.names.pick? columns

def descIn (tree : Tree) (columns : List Nat) (desc : String) : String :=
  Descriptor.rename (tree.nameIn columns) desc

/-- No two classes go by one name, and no two members of a class by one name and descriptor. -/
structure Distinguishes (tree : Tree) (columns : List Nat) : Prop where
  classes : (tree.classes.values.filterMap fun entry => entry.names.pick? columns).Nodup
  plain : ∀ entry ∈ tree.classes.values, ∀ name ∈ entry.names.pick? columns,
    ';' ∉ name.toList
  members : ∀ kind, ∀ entry ∈ tree.classes.values,
    ∀ left ∈ entry.members kind, ∀ right ∈ entry.members kind,
      (left.names.pick? columns).isSome →
        left.names.pick? columns = right.names.pick? columns →
          tree.descIn columns left.desc = tree.descIn columns right.desc → left = right

instance : Decidable (tree.Distinguishes columns) :=
  decidable_of_iff ((tree.classes.values.filterMap fun entry => entry.names.pick? columns).Nodup ∧
      (∀ entry ∈ tree.classes.values, ∀ name ∈ entry.names.pick? columns, ';' ∉ name.toList) ∧
      ∀ kind, ∀ entry ∈ tree.classes.values,
        ∀ left ∈ entry.members kind, ∀ right ∈ entry.members kind,
          (left.names.pick? columns).isSome →
            left.names.pick? columns = right.names.pick? columns →
              tree.descIn columns left.desc = tree.descIn columns right.desc → left = right)
    ⟨fun all => ⟨all.1, all.2.1, all.2.2⟩,
      fun distinguishes =>
        ⟨distinguishes.classes, distinguishes.plain, distinguishes.members⟩⟩

/-- Every class in a descriptor is one of the tree and goes by a name. -/
def Covers (tree : Tree) (columns : List Nat) : Prop :=
  ∀ kind, ∀ entry ∈ tree.classes.values, ∀ member ∈ entry.members kind,
    ∀ name ∈ references member.desc, (tree.nameIn columns name).isSome

instance : Decidable (tree.Covers columns) :=
  inferInstanceAs (Decidable (∀ kind, ∀ entry ∈ tree.classes.values, ∀ member ∈
    entry.members kind, ∀ name ∈ references member.desc, (tree.nameIn columns name).isSome))

/-! Names of classes by their first names. -/

theorem mem_values_of_class? {first : String} {entry : ClassRow}
    (known : tree.class? first = some entry) : entry ∈ tree.classes.values :=
  List.mem_map.mpr ⟨_, Keyed.mem_of_get? known, rfl⟩

theorem plain_of_nameIn (distinguishes : tree.Distinguishes columns) {first name : String}
    (known : tree.nameIn columns first = some name) : ';' ∉ name.toList := by
  obtain ⟨entry, found, picked⟩ := Option.bind_eq_some_iff.mp known
  exact distinguishes.plain entry (mem_values_of_class? found) name picked

/-- Keep what a class goes by under its first name. -/
def keepName (columns : List Nat) (done : Keyed String String) (entry : ClassRow) :
    Keyed String String :=
  match entry.names.pick? columns with
  | some name => done.put entry.names.firstName name
  | none => done

theorem get?_keepName (done : Keyed String String) (entry : ClassRow) (first : String) :
    (keepName columns done entry).get? first =
      if entry.names.firstName = first then (entry.names.pick? columns).or (done.get? first)
      else done.get? first := by
  unfold keepName
  cases entry.names.pick? columns with
  | none => simp
  | some name => rw [Keyed.get?_put, Option.some_or]

theorem get?_sourceNames (shaped : tree.Shaped) (columns : List Nat) (first : String) :
    (sourceNames tree columns).get? first = tree.nameIn columns first := by
  obtain ⟨namespaces, classes⟩ := tree
  obtain ⟨distinct, keyed, -⟩ := shaped
  -- A class is met once, so what is kept under its name before or after it is no matter.
  have fold (done : Keyed String String) :
      (classes.values.foldl (keepName columns) done).get? first =
        ((classes.get? first).bind fun entry => entry.names.pick? columns).or
          (done.get? first) := by
    induction classes generalizing done with
    | nil => rfl
    | cons head rest ih =>
        obtain ⟨key, entry⟩ := head
        obtain ⟨fresh, others⟩ := List.nodup_cons.mp distinct
        obtain ⟨same, later⟩ := List.forall_mem_cons.mp keyed
        dsimp only at same
        refine (ih others later _).trans ?_
        rw [get?_keepName, ← same]
        by_cases hit : key = first
        · subst hit
          have gone : Keyed.get? key rest = none := Keyed.get?_eq_none_iff.mpr fresh
          rw [gone, Keyed.get?, if_pos rfl, if_pos rfl]
          rfl
        · rw [Keyed.get?, if_neg hit, if_neg hit]
  exact (fold []).trans (Option.or_none)

end Tiny.Tree

/-! Tables between namespaces. -/

theorem columnsFor_eq_ok_iff {graph : Graph} {tree : Tree} {id : Nat} {columns : List Nat} :
    columnsFor graph tree id = .ok columns ↔
      columnsOf graph tree id = columns ∧ columns ≠ [] := by
  rw [columnsFor, ← columnsOf]
  cases columnsOf graph tree id with
  | nil =>
      constructor
      · intro impossible
        cases impossible
      · rintro ⟨rfl, there⟩
        exact absurd rfl there
  | cons column rest =>
      constructor
      · rintro ⟨⟩
        exact ⟨rfl, List.cons_ne_nil _ _⟩
      · rintro ⟨rfl, -⟩
        rfl

section Table

variable {graph : Graph} {tree : Tree} {source target : Nat} {table : RenameTable}

/-- What a table says of a class and of its members that go by a name in both namespaces. -/
def renameBetween (tree : Tree) (source target : List Nat) (entry : ClassRow) (mapped : String) :
    ClassRename :=
  let known := sourceNames tree source
  ⟨mapped, renamesOf known source target entry.fields,
    renamesOf known source target entry.methods⟩

def renameOf (tree : Tree) (source target : List Nat) (entry : ClassRow) :
    Option (String × ClassRename) :=
  match entry.names.pick? source, entry.names.pick? target with
  | some name, some mapped => some (name, renameBetween tree source target entry mapped)
  | _, _ => none

theorem members_renameBetween (kind : MemberKind) (columns further : List Nat) (entry : ClassRow)
    (mapped : String) : (renameBetween tree columns further entry mapped).members kind =
      renamesOf (sourceNames tree columns) columns further (entry.members kind) := by
  cases kind <;> rfl

theorem makeTable_eq_ok (made : makeTable graph tree source target = .ok table) :
    table = (RenameTable.empty (graph.name source) (graph.name target)).insertRenames
      (tree.classes.values.filterMap
        (renameOf tree (columnsOf graph tree source) (columnsOf graph tree target))) := by
  simp only [makeTable, bind, Except.bind] at made
  split at made
  · cases made
  · rename_i sourceColumns sourceFound
    split at made
    · cases made
    · rename_i targetColumns targetFound
      obtain ⟨rfl, -⟩ := columnsFor_eq_ok_iff.mp sourceFound
      obtain ⟨rfl, -⟩ := columnsFor_eq_ok_iff.mp targetFound
      cases made
      rw [RenameTable.insertRenames, List.foldl_filterMap]
      congr 1
      funext done entry
      unfold renameOf
      cases entry.names.pick? (columnsOf graph tree source) with
      | none => rfl
      | some name => cases entry.names.pick? (columnsOf graph tree target) <;> rfl

theorem renameOf_eq_some {columns further : List Nat} {entry : ClassRow} {name : String}
    {rename : ClassRename} (found : renameOf tree columns further entry = some (name, rename)) :
    entry.names.pick? columns = some name := by
  unfold renameOf at found
  split at found
  · rename_i first second sourceName targetName
    cases found
    exact sourceName
  · cases found

theorem classes_makeTable (made : makeTable graph tree source target = .ok table)
    (distinct : (tree.classes.values.filterMap fun entry =>
      entry.names.pick? (columnsOf graph tree source)).Nodup) :
    table.classes = tree.classes.values.filterMap
        (renameOf tree (columnsOf graph tree source) (columnsOf graph tree target)) ∧
      table.classes.keys.Nodup := by
  have keys : (Keyed.keys (tree.classes.values.filterMap
      (renameOf tree (columnsOf graph tree source) (columnsOf graph tree target)))).Nodup := by
    rw [Keyed.keys, List.map_filterMap]
    rw [List.Nodup, List.pairwise_filterMap] at distinct ⊢
    refine distinct.imp ?_
    intro left right apart name leftFound other rightFound
    obtain ⟨⟨_, leftRename⟩, leftMade, rfl⟩ := Option.map_eq_some_iff.mp leftFound
    obtain ⟨⟨_, rightRename⟩, rightMade, rfl⟩ := Option.map_eq_some_iff.mp rightFound
    exact apart _ (renameOf_eq_some leftMade) _ (renameOf_eq_some rightMade)
  rw [makeTable_eq_ok made, RenameTable.empty, RenameTable.insertRenames_of_nodup _ _ keys]
  exact ⟨rfl, keys⟩

theorem mem_renamesOf {known : Keyed String String} {columns further : List Nat}
    {members : List MemberRow} {rename : MemberRename} :
    rename ∈ renamesOf known columns further members ↔ ∃ member ∈ members,
      member.names.pick? columns = some rename.name ∧
        member.names.pick? further = some rename.mapped ∧
          Descriptor.rename known.get? member.desc = rename.desc := by
  rw [renamesOf, List.mem_filterMap]
  constructor
  · rintro ⟨member, listed, made⟩
    split at made
    · rename_i first second name mapped
      cases made
      exact ⟨member, listed, name, mapped, rfl⟩
    · cases made
  · rintro ⟨member, listed, name, mapped, desc⟩
    refine ⟨member, listed, ?_⟩
    simp only [name, mapped, desc]

variable (made : makeTable graph tree source target = .ok table)
  (distinguishes : tree.Distinguishes (columnsOf graph tree source))
  {entry : ClassRow} (there : entry ∈ tree.classes.values) {name mapped : String}
  (named : entry.names.pick? (columnsOf graph tree source) = some name)
  (renamed : entry.names.pick? (columnsOf graph tree target) = some mapped)
include made distinguishes there named renamed

theorem class?_makeTable : table.class? name =
    some (renameBetween tree (columnsOf graph tree source) (columnsOf graph tree target) entry
      mapped) := by
  obtain ⟨classes, distinct⟩ := classes_makeTable made distinguishes.classes
  apply Keyed.get?_of_mem distinct
  rw [classes, List.mem_filterMap]
  refine ⟨entry, there, ?_⟩
  rw [renameOf, named, renamed]

theorem mapClass?_makeTable : table.mapClass? name = some mapped :=
  RenameTable.mapClass?_eq_some_iff.mpr
    ⟨_, class?_makeTable made distinguishes there named renamed, rfl⟩

/-- A member is found under what it goes by, and no other member is in its way. -/
theorem mapMember?_makeTable (shaped : tree.Shaped) {kind : MemberKind} {member : MemberRow}
    (listed : member ∈ entry.members kind) {memberName memberMapped : String}
    (memberNamed : member.names.pick? (columnsOf graph tree source) = some memberName)
    (memberRenamed : member.names.pick? (columnsOf graph tree target) = some memberMapped) :
    table.mapMember? kind name memberName
      (tree.descIn (columnsOf graph tree source) member.desc) = some memberMapped := by
  have known := class?_makeTable made distinguishes there named renamed
  have descs : (sourceNames tree (columnsOf graph tree source)).get? =
      tree.nameIn (columnsOf graph tree source) :=
    funext (Tree.get?_sourceNames shaped _)
  refine RenameTable.mapMember?_of_mem known ?_ ?_
  · rw [members_renameBetween, mem_renamesOf, descs]
    exact ⟨member, listed, memberNamed, memberRenamed, rfl⟩
  · intro other otherListed sameName sameDesc
    rw [members_renameBetween, mem_renamesOf, descs] at otherListed
    obtain ⟨row, rowListed, rowNamed, rowRenamed, rowDesc⟩ := otherListed
    have same : member = row := by
      refine distinguishes.members kind entry there member listed row rowListed ?_ ?_ ?_
      · rw [memberNamed, Option.isSome_some]
      · rw [memberNamed, rowNamed, sameName]
      · exact (rowDesc.trans sameDesc).symm
    rw [same, rowRenamed] at memberRenamed
    exact Option.some.inj memberRenamed

end Table

section Compose

variable {graph : Graph} {tree : Tree} {source middle target : Nat} {table : RenameTable}

/-- Two names of one class stand in for each other. -/
theorem renamed_makeTable (made : makeTable graph tree source middle = .ok table)
    (distinguishes : tree.Distinguishes (columnsOf graph tree source)) {first : String}
    (known : (tree.nameIn (columnsOf graph tree source) first).isSome)
    (further : (tree.nameIn (columnsOf graph tree middle) first).isSome) :
    renamed table.mapClass? (renamed (tree.nameIn (columnsOf graph tree source)) first) =
      renamed (tree.nameIn (columnsOf graph tree middle)) first := by
  obtain ⟨name, named⟩ := Option.isSome_iff_exists.mp known
  obtain ⟨next, nextNamed⟩ := Option.isSome_iff_exists.mp further
  obtain ⟨entry, found, picked⟩ := Option.bind_eq_some_iff.mp named
  have nextPicked : entry.names.pick? (columnsOf graph tree middle) = some next := by
    rwa [Tree.nameIn, found, Option.bind_some] at nextNamed
  have moved := mapClass?_makeTable made distinguishes (Tree.mem_values_of_class? found) picked
    nextPicked
  rw [renamed, renamed, renamed, named, nextNamed, Option.getD_some, moved]
  rfl

theorem mapDesc_makeTable (made : makeTable graph tree source middle = .ok table)
    (distinguishes : tree.Distinguishes (columnsOf graph tree source)) {desc : String}
    (known : ∀ first ∈ references desc, (tree.nameIn (columnsOf graph tree source) first).isSome)
    (further : ∀ first ∈ references desc,
      (tree.nameIn (columnsOf graph tree middle) first).isSome) :
    table.mapDesc (tree.descIn (columnsOf graph tree source) desc) =
      tree.descIn (columnsOf graph tree middle) desc := by
  rw [RenameTable.mapDesc, Tree.descIn, Tree.descIn,
    Descriptor.rename_rename fun _ _ => Tree.plain_of_nameIn distinguishes]
  apply Descriptor.rename_congr
  intro first member
  exact renamed_makeTable made distinguishes (known first member) (further first member)

/-- Over a namespace in between, every symbol that goes by a name in all three gets the name
that the direct table gives it. With the first namespace for the last, that is its own name.
Of the last namespace nothing is asked. -/
theorem Catalog.Serves.compose_eq_direct {first second direct : RenameTable} (built : tree.Built)
    (firstServed : Serves graph tree source middle first)
    (secondServed : Serves graph tree middle target second)
    (directServed : Serves graph tree source target direct)
    (distinguishes : ∀ id ∈ [source, middle], tree.Distinguishes (columnsOf graph tree id))
    (covers : ∀ id ∈ [source, middle], tree.Covers (columnsOf graph tree id)) :
    ∀ entry ∈ tree.classes.values, ∀ name between last,
      entry.names.pick? (columnsOf graph tree source) = some name →
      entry.names.pick? (columnsOf graph tree middle) = some between →
      entry.names.pick? (columnsOf graph tree target) = some last →
        ((first.compose second).mapClass? name = some last ∧ direct.mapClass? name = some last) ∧
        ∀ kind, ∀ member ∈ entry.members kind, ∀ memberName memberBetween memberLast,
          member.names.pick? (columnsOf graph tree source) = some memberName →
          member.names.pick? (columnsOf graph tree middle) = some memberBetween →
          member.names.pick? (columnsOf graph tree target) = some memberLast →
            let desc := tree.descIn (columnsOf graph tree source) member.desc
            (first.compose second).mapMember? kind name memberName desc = some memberLast ∧
              direct.mapMember? kind name memberName desc = some memberLast := by
  have shaped := built.shaped
  have firstMade := Catalog.serves_iff.mp firstServed
  have secondMade := Catalog.serves_iff.mp secondServed
  have directMade := Catalog.serves_iff.mp directServed
  obtain ⟨here, next, -⟩ := List.forall_mem_cons.mp distinguishes |>.imp_right
    List.forall_mem_cons.mp
  obtain ⟨hereCovers, nextCovers, -⟩ := List.forall_mem_cons.mp covers |>.imp_right
    List.forall_mem_cons.mp
  have distinct := (classes_makeTable firstMade here.classes).2
  intro entry there name between last named betweenNamed lastNamed
  have known := class?_makeTable firstMade here there named betweenNamed
  refine ⟨⟨?_, mapClass?_makeTable directMade here there named lastNamed⟩, ?_⟩
  · have step := mapClass?_makeTable secondMade next there betweenNamed lastNamed
    rw [RenameTable.mapClass?_compose distinct,
      mapClass?_makeTable firstMade here there named betweenNamed, Option.map_some, step,
      Option.getD_some]
  · intro kind member listed memberName memberBetween memberLast memberNamed memberBetweenNamed
      memberLastNamed
    refine ⟨?_, mapMember?_makeTable directMade here there named lastNamed shaped listed
      memberNamed memberLastNamed⟩
    have desc := mapDesc_makeTable firstMade here (hereCovers kind entry there member listed)
      (nextCovers kind entry there member listed)
    have step := mapMember?_makeTable secondMade next there betweenNamed lastNamed shaped listed
      memberBetweenNamed memberLastNamed
    rw [RenameTable.mapMember?_compose distinct second kind known,
      mapMember?_makeTable firstMade here there named betweenNamed shaped listed memberNamed
        memberBetweenNamed, Option.map_some, desc]
    exact congrArg (fun found => some (found.getD memberBetween)) step

end Compose

/-- Three namespaces in a row; the last one borrows the names that it lacks. -/
def borrowingGraph : Graph :=
  ⟨[⟨"official", false, []⟩, ⟨"intermediary", false, [0]⟩, ⟨"named", true, [1]⟩]⟩

def borrowingText : String :=
  "tiny\t2\t0\tofficial\tintermediary\tnamed\n" ++
    "c\ta\tnet/A\tnet/Alpha\n\tf\tLb;\tf\tfield_1\tplayer\n\tm\t(La;)Lb;\tm\tmethod_2\n" ++
    "c\tb\tnet/B\n"

def borrowingTree : Tree :=
  ⟨["official", "intermediary", "named"],
    [("a", ⟨[some "a", some "net/A", some "net/Alpha"],
        [⟨"Lb;", [some "f", some "field_1", some "player"]⟩],
        [⟨"(La;)Lb;", [some "m", some "method_2", none]⟩]⟩),
      ("b", ⟨[some "b", some "net/B", none], [], []⟩)]⟩

def borrowingTable (source target : Nat) : RenameTable :=
  match makeTable borrowingGraph borrowingTree source target with
  | .ok table => table
  | .error _ => .empty "" ""

theorem Catalog.Serves.compose_eq_direct_borrowing :
    let composed := (borrowingTable 1 2).compose (borrowingTable 2 0)
    (composed.mapClass? "net/A" = some "a" ∧
      (borrowingTable 1 0).mapClass? "net/A" = some "a") ∧
    composed.mapMember? .method "net/A" "method_2" "(Lnet/A;)Lnet/B;" = some "m" ∧
      (borrowingTable 1 0).mapMember? .method "net/A" "method_2" "(Lnet/A;)Lnet/B;" =
        some "m" := by
  have parsed : Tree.parse "text.tiny" borrowingText = .ok borrowingTree := by decide +kernel
  have serves (source target : Nat)
      (made : makeTable borrowingGraph borrowingTree source target =
        .ok (borrowingTable source target)) :
      Serves borrowingGraph borrowingTree source target (borrowingTable source target) :=
    Catalog.serves_iff.mpr made
  have names := Catalog.Serves.compose_eq_direct (.parsed parsed)
    (serves 1 2 (by decide +kernel)) (serves 2 0 (by decide +kernel))
    (serves 1 0 (by decide +kernel)) (by decide +kernel) (by decide +kernel)
    ⟨[some "a", some "net/A", some "net/Alpha"],
      [⟨"Lb;", [some "f", some "field_1", some "player"]⟩],
      [⟨"(La;)Lb;", [some "m", some "method_2", none]⟩]⟩ (by decide +kernel)
    "net/A" "net/Alpha" "a" (by decide +kernel) (by decide +kernel) (by decide +kernel)
  have method := names.2 .method ⟨"(La;)Lb;", [some "m", some "method_2", none]⟩
    (by decide +kernel) "method_2" "method_2" "m" (by decide +kernel) (by decide +kernel)
    (by decide +kernel)
  have desc : borrowingTree.descIn (columnsOf borrowingGraph borrowingTree 1) "(La;)Lb;" =
      "(Lnet/A;)Lnet/B;" := by decide +kernel
  rw [desc] at method
  exact ⟨names.1, method⟩

end ArchiveRemap
