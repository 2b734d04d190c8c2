import ArchiveRemap.Proofs.Namespace.Route
import ArchiveRemap.Proofs.Store.Key
import ArchiveRemap.Proofs.Tiny.Naming
import ArchiveRemap.Proofs.Tiny.Texts
import Mathlib.Data.List.ReduceOption

/-!
What the fingerprint of mapping data tells. It is made of rows that are written one behind the
other: the namespaces, the names of a class, the descriptor and the names of a member. Unless
a text holds one of the two marks that end names and rows, the rows can be read back. What they
do not say is which of them are fields and which are methods, and in data of one column not
even which are classes. Two trees that agree in that as well are the same.
-/

namespace ArchiveRemap

/-! Bytes of characters. -/

namespace Sha256

theorem utf8_eq_flatMap (text : String) :
    utf8 text = text.toList.flatMap String.utf8EncodeChar := by
  rw [utf8, String.toUTF8_eq_toByteArray, ← String.utf8Encode_toList, List.utf8Encode,
    List.toList_data_toByteArray]

/-- A byte below 128 is all there is of its character. -/
theorem toNat_of_mem_utf8EncodeChar {c : Char} {byte : UInt8} (low : byte.toNat < 128)
    (member : byte ∈ String.utf8EncodeChar c) : c.toNat = byte.toNat := by
  have number : c.toNat = c.val.toNat := rfl
  simp only [String.utf8EncodeChar] at member
  split_ifs at member <;> simp only [List.mem_cons, List.not_mem_nil, or_false] at member
  · rw [member, UInt8.toNat_ofNat', number]
    omega
  all_goals
    rcases member with rfl | rfl | rfl | rfl <;> rw [UInt8.toNat_ofNat'] at low <;> omega

theorem mem_of_mem_utf8 {text : String} {byte : UInt8} (low : byte.toNat < 128)
    (member : byte ∈ utf8 text) : Char.ofNat byte.toNat ∈ text.toList := by
  rw [utf8_eq_flatMap] at member
  obtain ⟨c, inside, encoded⟩ := List.mem_flatMap.mp member
  rwa [← toNat_of_mem_utf8EncodeChar low encoded, Char.ofNat_toNat]

end Sha256

namespace Tiny

/-! Rows. -/

/-- A text without the marks that end names and rows. -/
def Unmarked (text : String) : Prop := '\x00' ∉ text.toList ∧ '\x01' ∉ text.toList

instance (text : String) : Decidable (Unmarked text) := inferInstanceAs (Decidable (_ ∧ _))

namespace Unmarked

variable {text : String}

theorem zero_not_mem (plain : Unmarked text) : 0 ∉ Sha256.utf8 text :=
  fun member => plain.1 (Sha256.mem_of_mem_utf8 (by decide) member)

theorem one_not_mem (plain : Unmarked text) : 1 ∉ Sha256.utf8 text :=
  fun member => plain.2 (Sha256.mem_of_mem_utf8 (by decide) member)

end Unmarked

namespace Row

/-- The row as its bytes show it: a name that is missing is an empty one. -/
def shown (row : Row) : List String := row.map (·.getD "")

theorem shown_map_some (names : List String) : shown (names.map some) = names := by
  simp [shown, Function.comp_def]

/-- A name that is there can be told from one that is missing. -/
theorem shown_injective {left right : Row} (leftNamed : left.All (· ≠ ""))
    (rightNamed : right.All (· ≠ "")) (same : left.shown = right.shown) : left = right := by
  induction left generalizing right with
  | nil => exact (List.map_eq_nil_iff.mp same.symm).symm
  | cons place rest ih =>
      cases right with
      | nil => cases same
      | cons other more =>
          obtain ⟨texts, rests⟩ := List.cons.inj same
          have places : place = other := by
            cases place <;> cases other
            · rfl
            · exact absurd texts.symm (rightNamed _ List.mem_cons_self)
            · exact absurd texts (leftNamed _ List.mem_cons_self)
            · exact congrArg some texts
          rw [places, ih (fun name member => leftNamed name (.tail _ member))
            (fun name member => rightNamed name (.tail _ member)) rests]

end Row

/-- What comes before the first mark can be read off, and what comes after it. -/
theorem eq_of_append_mark_eq {mark : UInt8} {left right rest more : List UInt8}
    (leftPlain : mark ∉ left) (rightPlain : mark ∉ right)
    (same : left ++ mark :: rest = right ++ mark :: more) : left = right ∧ rest = more := by
  rcases List.append_eq_append_iff.mp same with ⟨middle, rfl, tail⟩ | ⟨middle, rfl, tail⟩
  · cases middle with
    | nil => exact ⟨(List.append_nil left).symm, (List.cons.inj tail).2⟩
    | cons byte after =>
        rw [(List.cons.inj tail).1] at rightPlain
        exact absurd (List.mem_append_right left List.mem_cons_self) rightPlain
  · cases middle with
    | nil => exact ⟨List.append_nil right, (List.cons.inj tail).2.symm⟩
    | cons byte after =>
        rw [(List.cons.inj tail).1] at leftPlain
        exact absurd (List.mem_append_right right List.mem_cons_self) leftPlain

namespace Tree

theorem rowBytes_eq (row : Row) :
    rowBytes row = row.shown.flatMap (fun text => Sha256.utf8 text ++ [0]) ++ [1] := by
  rw [rowBytes, Row.shown, List.flatMap_map]

/-- The first row can be read off the bytes of several. -/
theorem rowBytes_append_injective {left right : Row} {rest more : List UInt8}
    (leftPlain : ∀ text ∈ left.shown, Unmarked text)
    (rightPlain : ∀ text ∈ right.shown, Unmarked text)
    (same : rowBytes left ++ rest = rowBytes right ++ more) :
    left.shown = right.shown ∧ rest = more := by
  simp only [rowBytes_eq, List.append_assoc, List.singleton_append] at same
  generalize left.shown = texts at same leftPlain
  generalize right.shown = others at same rightPlain
  -- Where one row goes on and the other one ends, a text would hold the mark of the end.
  have ends {text : String} (plain : Unmarked text) {before after : List UInt8} :
      1 :: before ≠ Sha256.utf8 text ++ 0 :: after := by
    cases bytes : Sha256.utf8 text with
    | nil => simp
    | cons byte tail =>
        rintro equal
        obtain ⟨rfl, -⟩ := List.cons.inj equal
        exact plain.one_not_mem (bytes ▸ List.mem_cons_self)
  induction texts generalizing others with
  | nil =>
      cases others with
      | nil => exact ⟨rfl, (List.cons.inj same).2⟩
      | cons other others =>
          simp only [List.flatMap_nil, List.nil_append, List.flatMap_cons,
            List.append_assoc, List.singleton_append] at same
          exact absurd same (ends (List.forall_mem_cons.mp rightPlain).1)
  | cons text texts ih =>
      obtain ⟨plain, plains⟩ := List.forall_mem_cons.mp leftPlain
      cases others with
      | nil =>
          simp only [List.flatMap_nil, List.nil_append, List.flatMap_cons,
            List.append_assoc, List.singleton_append] at same
          exact absurd same.symm (ends plain)
      | cons other others =>
          obtain ⟨otherPlain, otherPlains⟩ := List.forall_mem_cons.mp rightPlain
          simp only [List.flatMap_cons, List.append_assoc, List.singleton_append] at same
          obtain ⟨bytes, tails⟩ :=
            eq_of_append_mark_eq plain.zero_not_mem otherPlain.zero_not_mem same
          obtain ⟨rests, whole⟩ := ih plains others tails otherPlains
          exact ⟨by rw [utf8_injective bytes, rests], whole⟩

theorem rowBytes_ne_nil (row : Row) : rowBytes row ≠ [] := by simp [rowBytes]

/-- Rows one behind the other can be read back from their bytes. -/
theorem shown_eq_of_flatMap_rowBytes_eq {left right : List Row}
    (leftPlain : ∀ row ∈ left, ∀ text ∈ row.shown, Unmarked text)
    (rightPlain : ∀ row ∈ right, ∀ text ∈ row.shown, Unmarked text)
    (same : left.flatMap rowBytes = right.flatMap rowBytes) :
    left.map Row.shown = right.map Row.shown := by
  induction left generalizing right with
  | nil =>
      cases right with
      | nil => rfl
      | cons row more =>
          have empty := (List.append_eq_nil_iff.mp same.symm).1
          exact absurd empty (rowBytes_ne_nil row)
  | cons row rest ih =>
      cases right with
      | nil => exact absurd (List.append_eq_nil_iff.mp same).1 (rowBytes_ne_nil row)
      | cons other more =>
          obtain ⟨plain, plains⟩ := List.forall_mem_cons.mp leftPlain
          obtain ⟨otherPlain, otherPlains⟩ := List.forall_mem_cons.mp rightPlain
          obtain ⟨first, rests⟩ := rowBytes_append_injective plain otherPlain same
          rw [List.map_cons, List.map_cons, first, ih plains otherPlains rests]

end Tree

/-! The rows of a tree. -/

def MemberRow.rows (member : MemberRow) : List Row := [[some member.desc], member.names]

def ClassRow.rows (entry : ClassRow) : List Row :=
  entry.names :: (entry.fields ++ entry.methods).flatMap MemberRow.rows

namespace Tree

def rows (tree : Tree) : List Row :=
  tree.namespaces.map some :: tree.classes.values.flatMap ClassRow.rows

/-- No name and no descriptor holds a mark. -/
def Unmarked (tree : Tree) : Prop := ∀ row ∈ tree.rows, ∀ text ∈ row.shown, Tiny.Unmarked text

instance (tree : Tree) : Decidable tree.Unmarked :=
  inferInstanceAs (Decidable (∀ row ∈ tree.rows, ∀ text ∈ row.shown, Tiny.Unmarked text))

theorem bytes_eq_flatMap (tree : Tree) : tree.bytes = tree.rows.flatMap rowBytes := by
  have entry (entry : ClassRow) : classBytes entry = entry.rows.flatMap rowBytes := by
    rw [classBytes, ClassRow.rows, List.flatMap_cons, List.flatMap_assoc]
    congr 1
    refine List.flatMap_congr fun member _ => ?_
    simp [memberBytes, MemberRow.rows]
  rw [bytes, rows, List.flatMap_cons, List.flatMap_assoc]
  congr 1
  exact List.flatMap_congr fun row _ => entry row

end Tree

/-! Reading rows as members and classes. -/

section Members

variable {left right : List MemberRow}

/-- Members are read back as long as descriptors come where the names of a class do not. -/
theorem members_eq_of_rows {rest more : List (List String)}
    (leftNamed : ∀ member ∈ left, member.names.All (· ≠ ""))
    (rightNamed : ∀ member ∈ right, member.names.All (· ≠ ""))
    (apart : left.length = right.length ∨
      (∀ row ∈ rest.head?, row.length ≠ 1) ∧ ∀ row ∈ more.head?, row.length ≠ 1)
    (same : (left.flatMap MemberRow.rows).map Row.shown ++ rest =
      (right.flatMap MemberRow.rows).map Row.shown ++ more) :
    left = right ∧ rest = more := by
  induction left generalizing right with
  | nil =>
      cases right with
      | nil => exact ⟨rfl, same⟩
      | cons other others =>
          rcases apart with lengths | ⟨restApart, -⟩
          · cases lengths
          · have start : [other.desc] ∈ rest.head? := by
              change rest = [other.desc] :: _ at same
              rw [same]
              rfl
            exact absurd rfl (restApart _ start)
  | cons member members ih =>
      obtain ⟨named, nameds⟩ := List.forall_mem_cons.mp leftNamed
      cases right with
      | nil =>
          rcases apart with lengths | ⟨-, moreApart⟩
          · cases lengths
          · have start : [member.desc] ∈ more.head? := by
              change [member.desc] :: _ = more at same
              rw [← same]
              rfl
            exact absurd rfl (moreApart _ start)
      | cons other others =>
          obtain ⟨otherNamed, otherNameds⟩ := List.forall_mem_cons.mp rightNamed
          change [member.desc] :: member.names.shown ::
              ((members.flatMap MemberRow.rows).map Row.shown ++ rest) =
            [other.desc] :: other.names.shown ::
              ((others.flatMap MemberRow.rows).map Row.shown ++ more) at same
          simp only [List.cons.injEq, and_true] at same
          obtain ⟨desc, names, tails⟩ := same
          have first : member = other := by
            cases member
            cases other
            exact congr (congrArg MemberRow.mk desc) (Row.shown_injective named otherNamed names)
          obtain ⟨rests, whole⟩ := ih nameds otherNameds
            (apart.imp_left fun lengths => Nat.succ.inj lengths) tails
          exact ⟨by rw [first, rests], whole⟩

end Members

/-- How many members of each kind a class has. -/
def ClassRow.counts (entry : ClassRow) : Nat × Nat := (entry.fields.length, entry.methods.length)

/-- A class but for where its fields end. -/
def ClassRow.outline (entry : ClassRow) : Row × List MemberRow :=
  (entry.names, entry.fields ++ entry.methods)

section Entries

variable {left right : List ClassRow}

theorem ClassRow.All.named {entry : ClassRow} (all : entry.All (· ≠ "") fun _ => True) :
    ∀ member ∈ entry.fields ++ entry.methods, member.names.All (· ≠ "") := by
  intro member listed
  rcases List.mem_append.mp listed with field | method
  · exact (all.members .field member field).names
  · exact (all.members .method member method).names

/-- Classes are read back if it is known how many members each has, or if the names of a class
are more than a descriptor. -/
theorem outlines_eq_of_rows (leftNamed : ∀ entry ∈ left, entry.All (· ≠ "") fun _ => True)
    (rightNamed : ∀ entry ∈ right, entry.All (· ≠ "") fun _ => True)
    (apart : left.map ClassRow.counts = right.map ClassRow.counts ∨
      (∀ entry ∈ left, entry.names.length ≠ 1) ∧ ∀ entry ∈ right, entry.names.length ≠ 1)
    (same : (left.flatMap ClassRow.rows).map Row.shown =
      (right.flatMap ClassRow.rows).map Row.shown) :
    left.map ClassRow.outline = right.map ClassRow.outline := by
  induction left generalizing right with
  | nil =>
      cases right with
      | nil => rfl
      | cons other others => cases same
  | cons entry entries ih =>
      obtain ⟨named, nameds⟩ := List.forall_mem_cons.mp leftNamed
      cases right with
      | nil => cases same
      | cons other others =>
          obtain ⟨otherNamed, otherNameds⟩ := List.forall_mem_cons.mp rightNamed
          rw [List.flatMap_cons, List.flatMap_cons, List.map_append, List.map_append,
            ClassRow.rows, ClassRow.rows, List.map_cons, List.map_cons, List.cons_append,
            List.cons_append, List.cons.injEq] at same
          -- A class row of more than one name cannot be taken for the descriptor of a member.
          have wide {classes : List ClassRow}
              (wide : ∀ entry ∈ classes, entry.names.length ≠ 1) :
              ∀ row ∈ ((classes.flatMap ClassRow.rows).map Row.shown).head?, row.length ≠ 1 := by
            cases classes with
            | nil => simp
            | cons next more =>
                intro row start
                cases start
                simpa [Row.shown] using wide next List.mem_cons_self
          obtain ⟨members, tails⟩ := members_eq_of_rows named.named otherNamed.named (by
            rcases apart with counts | ⟨leftWide, rightWide⟩
            · left
              simp only [List.map_cons, List.cons.injEq, ClassRow.counts, Prod.mk.injEq] at counts
              rw [List.length_append, List.length_append, counts.1.1, counts.1.2]
            · exact .inr ⟨wide fun entry listed => leftWide entry (.tail _ listed),
                wide fun entry listed => rightWide entry (.tail _ listed)⟩) same.2
          have rests := ih nameds otherNameds (by
            rcases apart with counts | ⟨leftWide, rightWide⟩
            · exact .inl (List.cons.inj counts).2
            · exact .inr ⟨fun entry listed => leftWide entry (.tail _ listed),
                fun entry listed => rightWide entry (.tail _ listed)⟩) tails
          have names := Row.shown_injective named.names otherNamed.names same.1
          rw [List.map_cons, List.map_cons, rests, ClassRow.outline, ClassRow.outline, names,
            members]

/-- With the numbers of its members, a class is known from its outline. -/
theorem entries_eq_of_outlines (outlines : left.map ClassRow.outline = right.map ClassRow.outline)
    (counts : left.map ClassRow.counts = right.map ClassRow.counts) : left = right := by
  induction left generalizing right with
  | nil =>
      cases right with
      | nil => rfl
      | cons other others => cases outlines
  | cons entry entries ih =>
      cases right with
      | nil => cases outlines
      | cons other others =>
          obtain ⟨outline, rests⟩ := List.cons.inj outlines
          obtain ⟨count, restCounts⟩ := List.cons.inj counts
          simp only [ClassRow.outline, ClassRow.counts, Prod.mk.injEq] at outline count
          obtain ⟨fields, methods⟩ := List.append_inj outline.2 count.1
          have first : entry = other := by
            cases entry
            cases other
            simp_all
          rw [first, ih rests restCounts]

end Entries

namespace Tree

variable {left right : Tree}

/-- How many members of each kind the classes have, in their order. -/
def shape (tree : Tree) : List (Nat × Nat) := tree.classes.values.map ClassRow.counts

/-- What the bytes tell whatever the number of columns: the namespaces and the rows. -/
theorem rows_eq_of_bytes_eq (leftPlain : left.Unmarked) (rightPlain : right.Unmarked)
    (same : left.bytes = right.bytes) :
    left.namespaces = right.namespaces ∧
      (left.classes.values.flatMap ClassRow.rows).map Row.shown =
        (right.classes.values.flatMap ClassRow.rows).map Row.shown := by
  rw [bytes_eq_flatMap, bytes_eq_flatMap] at same
  have shown := shown_eq_of_flatMap_rowBytes_eq leftPlain rightPlain same
  rw [rows, rows, List.map_cons, List.map_cons, Row.shown_map_some, Row.shown_map_some,
    List.cons.injEq] at shown
  exact shown

theorem eq_of_values_eq (leftShaped : left.Shaped) (rightShaped : right.Shaped)
    (namespaces : left.namespaces = right.namespaces)
    (values : left.classes.values = right.classes.values) : left = right := by
  have listed {tree : Tree} (shaped : tree.Shaped) : tree.classes =
      tree.classes.values.map fun entry => (entry.names.firstName, entry) := by
    rw [Keyed.values, List.map_map]
    refine (List.map_id _).symm.trans (List.map_congr_left fun pair member => ?_)
    exact Prod.ext (shaped.keyed pair member) rfl
  have classes : left.classes = right.classes := by
    rw [listed leftShaped, listed rightShaped, values]
  cases left
  cases right
  simp_all

/-! In the table of the first namespace to itself, every class and every member has its place. -/

/-- A graph of one namespace. -/
def alone (name : String) : Graph := ⟨[⟨name, false, []⟩]⟩

variable {tree : Tree} {root : String} {more : List String}

theorem columnsOf_alone (header : tree.namespaces = root :: more) :
    columnsOf (alone root) tree 0 = [0] := by
  have line : (alone root).fallbackLine 0 = [0] := rfl
  have name : (alone root).name 0 = root := rfl
  have column : tree.column? root = some 0 := by
    rw [column?, header, List.findIdx?_cons, if_pos (decide_eq_true rfl)]
  rw [columnsOf, line, List.filterMap_cons_some (by rw [name, column]), List.filterMap_nil]

theorem pick?_first {width : Nat} {row : Row} (shaped : row.Shaped width) :
    row.pick? [0] = some row.firstName := by
  obtain ⟨rest, split⟩ := List.head?_eq_some_iff.mp shaped.named
  generalize row.firstName = name at split ⊢
  rw [split]
  rfl

theorem length_renamesOf_first (known : Keyed String String) {width : Nat}
    {members : List MemberRow} (shaped : ∀ member ∈ members, member.names.Shaped width) :
    (renamesOf known [0] [0] members).length = members.length := by
  rw [renamesOf, List.length_filterMap_eq_countP, List.countP_eq_length]
  intro member listed
  rw [pick?_first (shaped member listed)]
  rfl

theorem exists_table_alone (shaped : tree.Shaped) (header : tree.namespaces = root :: more) :
    ∃ table, makeTable (alone root) tree 0 0 = .ok table ∧
      table.classes.values.map (fun entry => (entry.fields.length, entry.methods.length)) =
        tree.shape := by
  have columns := columnsOf_alone header
  have found : columnsFor (alone root) tree 0 = .ok [0] :=
    columnsFor_eq_ok_iff.mpr ⟨columns, List.cons_ne_nil _ _⟩
  obtain ⟨table, made⟩ : ∃ table, makeTable (alone root) tree 0 0 = .ok table := by
    rw [makeTable, found]
    exact ⟨_, rfl⟩
  have entries : ∀ entry ∈ tree.classes.values, entry.Shaped tree.namespaces.length := by
    rw [Keyed.values, List.forall_mem_map]
    exact shaped.entries
  have distinct : (tree.classes.values.filterMap fun entry =>
      entry.names.pick? (columnsOf (alone root) tree 0)).Nodup := by
    rw [columns, List.filterMap_congr fun entry listed => pick?_first (entries entry listed).names,
      List.filterMap_eq_map', Keyed.values, List.map_map]
    have keys : tree.classes.keys = tree.classes.map fun pair => pair.2.names.firstName :=
      List.map_congr_left shaped.keyed
    exact keys ▸ shaped.distinct
  refine ⟨table, made, ?_⟩
  rw [(classes_makeTable made distinct).1, columns, Keyed.values, List.map_filterMap,
    List.map_filterMap, shape, ← List.filterMap_eq_map]
  refine List.filterMap_congr fun entry listed => ?_
  have here := entries entry listed
  have fields : (renamesOf (sourceNames tree [0]) [0] [0] entry.fields).length =
      entry.fields.length := length_renamesOf_first _ (here.members .field)
  have methods : (renamesOf (sourceNames tree [0]) [0] [0] entry.methods).length =
      entry.methods.length := length_renamesOf_first _ (here.members .method)
  rw [renameOf, pick?_first here.names]
  simp only [Option.map_some, renameBetween, Function.comp_apply, ClassRow.counts, fields, methods]

/-- Data without marks and with one fingerprint gives the same tables, or the same errors, exactly
if its classes have the same numbers of fields and of methods. Only that can differ, unless
there is but one column. -/
theorem Built.tables_eq_iff_of_fingerprint_eq (leftBuilt : left.Built) (rightBuilt : right.Built)
    (leftPlain : left.Unmarked) (rightPlain : right.Unmarked)
    (free : Sha256.hexDigest left.bytes = Sha256.hexDigest right.bytes → left.bytes = right.bytes)
    (same : left.fingerprint = right.fingerprint) :
    ((∀ graph source target, ((Catalog.ofTree graph left).table source target).1 =
        ((Catalog.ofTree graph right).table source target).1) ↔ left.shape = right.shape) ∧
      left.namespaces = right.namespaces ∧
      (left.namespaces.length ≠ 1 → left.classes.values.map ClassRow.outline =
        right.classes.values.map ClassRow.outline) := by
  have leftShaped := leftBuilt.shaped
  have rightShaped := rightBuilt.shaped
  obtain ⟨namespaces, rows⟩ := rows_eq_of_bytes_eq leftPlain rightPlain (free same)
  have table (graph : Graph) (tree : Tree) (source target : Nat) :
      ((Catalog.ofTree graph tree).table source target).1 = makeTable graph tree source target :=
    Catalog.table_eq (by intro _ _ _ found; cases found)
  refine ⟨⟨fun tables => ?_, fun shapes => ?_⟩, namespaces, fun several => ?_⟩
  · cases header : left.namespaces with
    | nil =>
        -- Without a column there is no class, for a class has a name in the first one.
        have none {tree : Tree} (shaped : tree.Shaped) (header : tree.namespaces = []) :
            tree.shape = [] := by
          have empty : tree.classes = [] := by
            refine List.eq_nil_iff_forall_not_mem.mpr fun pair member => ?_
            have names := (shaped.entries pair member).names
            have named := names.named
            rw [List.length_eq_zero_iff.mp (names.width.trans (by rw [header]; rfl))] at named
            cases named
          rw [shape, empty]
          rfl
        rw [none leftShaped header, none rightShaped (namespaces ▸ header)]
    | cons root more =>
        obtain ⟨leftTable, leftMade, leftCounts⟩ := exists_table_alone leftShaped header
        obtain ⟨rightTable, rightMade, rightCounts⟩ :=
          exists_table_alone rightShaped (namespaces ▸ header)
        have tables := tables (alone root) 0 0
        rw [table, table, leftMade, rightMade, Except.ok.injEq] at tables
        rw [← leftCounts, ← rightCounts, tables]
  · have outlines := outlines_eq_of_rows leftBuilt.named rightBuilt.named (.inl shapes) rows
    have values := entries_eq_of_outlines outlines shapes
    rw [eq_of_values_eq leftShaped rightShaped namespaces values]
    exact fun _ _ _ => rfl
  · have wide {tree : Tree} (shaped : tree.Shaped) (several : tree.namespaces.length ≠ 1) :
        ∀ entry ∈ tree.classes.values, entry.names.length ≠ 1 := by
      rw [Keyed.values, List.forall_mem_map]
      intro pair member
      rw [(shaped.entries pair member).names.width]
      exact several
    exact outlines_eq_of_rows leftBuilt.named rightBuilt.named
      (.inr ⟨wide leftShaped several, wide rightShaped (namespaces ▸ several)⟩) rows

/-! Data that is mistaken for other data. -/

def fieldText : String := "tiny\t2\t0\ta\tb\nc\tP\tQ\n\tf\tI\tx\ty\n"

def methodText : String := "tiny\t2\t0\ta\tb\nc\tP\tQ\n\tm\tI\tx\ty\n"

def fieldTree : Tree :=
  ⟨["a", "b"], [("P", ⟨[some "P", some "Q"], [⟨"I", [some "x", some "y"]⟩], []⟩)]⟩

def methodTree : Tree :=
  ⟨["a", "b"], [("P", ⟨[some "P", some "Q"], [], [⟨"I", [some "x", some "y"]⟩]⟩)]⟩

theorem parse_fieldText : Tree.parse "m.tiny" fieldText = .ok fieldTree := by decide +kernel

theorem parse_methodText : Tree.parse "m.tiny" methodText = .ok methodTree := by decide +kernel

/-- A field and a method of one row make the same bytes, and not the same tables. -/
theorem Built.tables_eq_iff_of_fingerprint_eq_kinds :
    fieldTree.fingerprint = methodTree.fingerprint ∧
      fieldTree.classes.values.map ClassRow.outline =
        methodTree.classes.values.map ClassRow.outline ∧
      ¬ ∀ graph source target, ((Catalog.ofTree graph fieldTree).table source target).1 =
        ((Catalog.ofTree graph methodTree).table source target).1 := by
  have bytes : fieldTree.bytes = methodTree.bytes := by decide +kernel
  have told := Built.tables_eq_iff_of_fingerprint_eq (.parsed parse_fieldText)
    (.parsed parse_methodText) (by decide +kernel) (by decide +kernel) (fun _ => bytes)
    (congrArg Sha256.hexDigest bytes)
  refine ⟨congrArg Sha256.hexDigest bytes, told.2.2 (by decide), fun tables => ?_⟩
  exact absurd (told.1.mp tables) (by decide)

/-- Texts whose trees have one fingerprint: a field and a method; a member and two classes, in
one column; and names that hold the mark at the end of a name. -/
def confusedTexts : List (String × String) :=
  [(fieldText, methodText),
    ("tiny\t2\t0\ta\nc\tP\n\tf\tI\tx\n", "tiny\t2\t0\ta\nc\tP\nc\tI\nc\tx\n"),
    ("tiny\t2\t0\ta\tb\n\tescaped-names\nc\tp\\0q\t\n",
      "tiny\t2\t0\ta\tb\n\tescaped-names\nc\tp\tq\\0\n")]

theorem fingerprint_confuses :
    Graph.build [⟨"a", false, []⟩, ⟨"b", false, ["a"]⟩] = .ok Graph.pair ∧
    ∀ texts ∈ confusedTexts, ∃ left right,
      Tree.parse "m.tiny" texts.1 = .ok left ∧ Tree.parse "m.tiny" texts.2 = .ok right ∧
        left.bytes = right.bytes ∧ left.fingerprint = right.fingerprint ∧
          ((Catalog.ofTree Graph.pair left).table 0 1).1 ≠
            ((Catalog.ofTree Graph.pair right).table 0 1).1 := by
  refine ⟨Graph.build_pair, ?_⟩
  simp only [confusedTexts, List.forall_mem_cons, List.not_mem_nil, false_implies, implies_true,
    and_true]
  refine ⟨?kinds, ?levels, ?marks⟩
  case kinds =>
    have bytes : fieldTree.bytes = methodTree.bytes := by decide +kernel
    exact ⟨_, _, parse_fieldText, parse_methodText, bytes, congrArg Sha256.hexDigest bytes,
      by decide +kernel⟩
  case levels =>
    let left : Tree := ⟨["a"], [("P", ⟨[some "P"], [⟨"I", [some "x"]⟩], []⟩)]⟩
    let right : Tree := ⟨["a"], [("P", ⟨[some "P"], [], []⟩), ("I", ⟨[some "I"], [], []⟩),
      ("x", ⟨[some "x"], [], []⟩)]⟩
    have bytes : left.bytes = right.bytes := by decide +kernel
    exact ⟨left, right, by decide +kernel, by decide +kernel, bytes,
      congrArg Sha256.hexDigest bytes, by decide +kernel⟩
  case marks =>
    let left : Tree := ⟨["a", "b"], [("p\x00q", ⟨[some "p\x00q", none], [], []⟩)]⟩
    let right : Tree := ⟨["a", "b"], [("p", ⟨[some "p", some "q\x00"], [], []⟩)]⟩
    have bytes : left.bytes = right.bytes := by decide +kernel
    exact ⟨left, right, by decide +kernel, by decide +kernel, bytes,
      congrArg Sha256.hexDigest bytes, by decide +kernel⟩

end Tree

end Tiny

end ArchiveRemap
