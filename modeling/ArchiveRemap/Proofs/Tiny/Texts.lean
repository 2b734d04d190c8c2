import ArchiveRemap.Proofs.Tiny.Line
import ArchiveRemap.Proofs.Tiny.Shape

/-!
The texts of mapping data. A property that a file's names and descriptors have as they are
spelt is one of all names and descriptors of the tree, and it stays so when trees are merged.
In particular no name is empty.
-/

namespace ArchiveRemap

namespace Tiny

/-! Trees all of whose names have one property and all of whose descriptors have another. -/

section All

variable {onName onDesc : String → Prop}

def Row.All (onName : String → Prop) (row : Row) : Prop :=
  ∀ name, some name ∈ row → onName name

structure MemberRow.All (onName onDesc : String → Prop) (member : MemberRow) : Prop where
  desc : onDesc member.desc
  names : member.names.All onName

structure ClassRow.All (onName onDesc : String → Prop) (entry : ClassRow) : Prop where
  names : entry.names.All onName
  members : ∀ kind, ∀ member ∈ entry.members kind, member.All onName onDesc

def Tree.All (onName onDesc : String → Prop) (tree : Tree) : Prop :=
  ∀ entry ∈ tree.classes.values, entry.All onName onDesc

/-! Merging. -/

namespace Row.All

variable {row incoming : Row} {columns : List Nat}

theorem widen (all : row.All onName) (width : Nat) : (row.widen width).All onName := by
  intro name member
  rcases List.mem_append.mp member with old | added
  · exact all name old
  · cases List.eq_of_mem_replicate added

theorem empty (width : Nat) : (emptyRow width).All onName := by
  intro name member
  cases List.eq_of_mem_replicate member

theorem settle (all : row.All onName) {offered : Option String}
    (good : ∀ name, offered = some name → onName name) (column : Nat) :
    (row.settle offered column).All onName := by
  intro name member
  rw [Row.settle] at member
  split at member
  · rcases List.mem_or_eq_of_mem_set member with old | new
    · exact all name old
    · exact good name new.symm
  · exact all name member

theorem fill (all : row.All onName) (arriving : incoming.All onName) (columns : List Nat) :
    (row.fill incoming columns).All onName := by
  induction incoming generalizing row columns with
  | nil => exact all
  | cons offered rest ih =>
      cases columns with
      | nil => exact all
      | cons column others =>
          rw [fill_cons]
          refine ih (all.settle ?_ column) (fun name member => arriving name ?_) others
          · rintro name rfl
            exact arriving name List.mem_cons_self
          · exact List.mem_cons_of_mem _ member

end Row.All

variable {width : Nat} {columns : List Nat}

theorem all_mergeMember {member : MemberRow} {known : List MemberRow}
    (arriving : member.All onName onDesc) (all : ∀ old ∈ known, old.All onName onDesc) :
    ∀ made ∈ mergeMember columns width member known, made.All onName onDesc := by
  induction known with
  | nil =>
      intro made listed
      rw [mergeMember, List.mem_singleton] at listed
      rw [listed]
      exact ⟨arriving.desc, .fill (.empty width) arriving.names columns⟩
  | cons old rest ih =>
      obtain ⟨first, later⟩ := List.forall_mem_cons.mp all
      intro made listed
      rw [mergeMember] at listed
      split at listed
      · rcases List.mem_cons.mp listed with rfl | kept
        · exact ⟨first.desc, first.names.fill arriving.names columns⟩
        · exact later made kept
      · rcases List.mem_cons.mp listed with rfl | kept
        · exact first
        · exact ih later made kept

theorem all_mergeMemberList {known incoming : List MemberRow}
    (all : ∀ old ∈ known, old.All onName onDesc)
    (arriving : ∀ member ∈ incoming, member.All onName onDesc) :
    ∀ made ∈ mergeMemberList columns width known incoming, made.All onName onDesc := by
  induction incoming generalizing known with
  | nil => exact all
  | cons member rest ih =>
      obtain ⟨first, later⟩ := List.forall_mem_cons.mp arriving
      exact ih (all_mergeMember first all) later

theorem ClassRow.All.merge {incoming known : ClassRow} (all : known.All onName onDesc)
    (arriving : incoming.All onName onDesc) :
    (mergeClass columns width incoming known).All onName onDesc where
  names := all.names.fill arriving.names columns
  members kind := by
    rw [members_mergeClass]
    exact all_mergeMemberList (all.members kind) (arriving.members kind)

theorem ClassRow.All.new {row : Row} (all : row.All onName) :
    ClassRow.All onName onDesc ⟨row, [], []⟩ where
  names := all
  members kind member listed := by cases kind <;> cases listed

theorem ClassRow.All.widen {entry : ClassRow} (all : entry.All onName onDesc) (width : Nat) :
    (entry.widen width).All onName onDesc where
  names := all.names.widen width
  members kind member listed := by
    have origin : ∃ old ∈ entry.members kind,
        member.desc = old.desc ∧ member.names = old.names.widen width := by
      cases kind <;>
      · obtain ⟨old, there, rfl⟩ := List.mem_map.mp listed
        exact ⟨old, there, rfl, rfl⟩
    obtain ⟨old, there, desc, names⟩ := origin
    have before := all.members kind old there
    exact ⟨desc ▸ before.desc, names ▸ before.names.widen width⟩

theorem all_mergeClasses {classes arriving : Keyed String ClassRow}
    (all : ∀ pair ∈ classes, pair.2.All onName onDesc)
    (incoming : ∀ pair ∈ arriving, pair.2.All onName onDesc) :
    ∀ pair ∈ arriving.foldl (fun done (key, row) =>
      done.adjust key ⟨emptyRow width, [], []⟩ (mergeClass columns width row)) classes,
        pair.2.All onName onDesc := by
  induction arriving generalizing classes with
  | nil => exact all
  | cons pair rest ih =>
      obtain ⟨key, row⟩ := pair
      obtain ⟨first, later⟩ := List.forall_mem_cons.mp incoming
      refine ih (fun made listed => ?_) later
      rcases Keyed.mem_adjust listed with ⟨old, rfl | there, rfl⟩ | kept
      · exact (ClassRow.All.new (.empty width)).merge first
      · exact (all _ there).merge first
      · exact all made kept

namespace Tree

theorem all_iff {tree : Tree} :
    tree.All onName onDesc ↔ ∀ pair ∈ tree.classes, pair.2.All onName onDesc := by
  rw [Tree.All, Keyed.values, List.forall_mem_map]

theorem All.merge {tree other merged : Tree} (all : tree.All onName onDesc)
    (arriving : other.All onName onDesc) (done : tree.merge other = .ok merged) :
    merged.All onName onDesc := by
  rw [all_iff] at all arriving ⊢
  unfold Tree.merge at done
  split at done
  · cases done
    exact arriving
  · split at done
    · cases done
      refine all_mergeClasses (fun pair listed => ?_) arriving
      obtain ⟨⟨key, entry⟩, there, rfl⟩ := List.mem_map.mp listed
      exact (all _ there).widen _
    · cases done

end Tree

/-! Reading. -/

/-- What the parts of a line spell has the properties. -/
structure Spells (onName onDesc : String → Prop) (escaped : Bool) : Prop where
  name : ∀ part, part ≠ [] → '\t' ∉ part → '\n' ∉ part → onName (partText escaped part)
  desc : ∀ part, '\t' ∉ part → '\n' ∉ part → onDesc (partText escaped part)

theorem plain_of_mem_parts {text part : List Char} (plain : '\n' ∉ text)
    (member : part ∈ (Line.ofText text).parts) : '\t' ∉ part ∧ '\n' ∉ part := by
  exact ⟨(Text.mem_splitOn member).1, fun feed => plain (Line.subset_of_mem_parts member feed)⟩

theorem all_readRow {width : Nat} {escaped : Bool} {parts : List (List Char)} {row : Row}
    (spells : Spells onName onDesc escaped) (plain : ∀ part ∈ parts, '\t' ∉ part ∧ '\n' ∉ part)
    (read : readRow width escaped parts = .ok row) : row.All onName := by
  obtain ⟨rfl, -⟩ := readRow_eq_ok read
  refine Row.All.widen (fun name member => ?_) width
  obtain ⟨part, there, spelt⟩ := List.mem_map.mp member
  split at spelt
  · cases spelt
  · rename_i filled
    cases spelt
    exact spells.name part (by simpa using filled) (plain part there).1 (plain part there).2

namespace Reading

variable {reading after : Reading} {text : List Char}

theorem all_put {key : String} {entry : ClassRow} (all : reading.tree.All onName onDesc)
    (well : entry.All onName onDesc) :
    (Tree.mk reading.tree.namespaces (reading.tree.classes.put key entry)).All onName onDesc := by
  rw [Tree.all_iff] at all ⊢
  intro pair member
  rcases Keyed.mem_put member with rfl | old
  · exact well
  · exact all pair old

theorem all_openClass {line : Line} (all : reading.tree.All onName onDesc)
    (spells : Spells onName onDesc reading.escaped)
    (plain : ∀ part ∈ line.parts, '\t' ∉ part ∧ '\n' ∉ part)
    (read : reading.openClass line = .ok after) : after.tree.All onName onDesc := by
  obtain ⟨row, found, rfl⟩ := openClass_eq_ok read
  exact all_put all
    (.new (all_readRow spells (fun part there => plain part (List.mem_of_mem_drop there)) found))

theorem all_addMember {kind : MemberKind} {owner : String} {line : Line}
    (all : reading.tree.All onName onDesc) (spells : Spells onName onDesc reading.escaped)
    (plain : ∀ part ∈ line.parts, '\t' ∉ part ∧ '\n' ∉ part)
    (read : reading.addMember kind owner line = .ok after) : after.tree.All onName onDesc := by
  obtain ⟨mark, desc, names, row, entry, split, found, known, rfl⟩ := addMember_eq_ok read
  rw [split, List.forall_mem_cons, List.forall_mem_cons] at plain
  have old := Tree.all_iff.mp all _ (Keyed.mem_of_get? known)
  refine all_put all ⟨?_, ?_⟩
  · cases kind <;> exact old.names
  · intro place other listed
    rcases mem_addMember listed with before | rfl
    · exact old.members place other before
    · exact ⟨spells.desc desc plain.2.1.1 plain.2.1.2, all_readRow spells plain.2.2 found⟩

theorem all_readLine (all : reading.tree.All onName onDesc)
    (spells : Spells onName onDesc reading.escaped) (plain : '\n' ∉ text)
    (read : reading.readLine text = .ok after) : after.tree.All onName onDesc := by
  have parts : ∀ part ∈ (Line.ofText text).parts, '\t' ∉ part ∧ '\n' ∉ part :=
    fun _ => plain_of_mem_parts plain
  rcases readLine_cases read with ⟨-, opened⟩ | ⟨owner, kind, -, added⟩ | ⟨-, -, rfl⟩ | ⟨-, rfl⟩
  · exact all_openClass all spells parts opened
  · exact all_addMember all spells parts added
  · exact all
  · exact all

end Reading

theorem Tree.all_parse {origin text : String} {tree : Tree}
    (spells : ∀ escaped, Spells onName onDesc escaped)
    (parsed : Tree.parse origin text = .ok tree) : tree.All onName onDesc := by
  obtain ⟨header, rest, namespaces, reading, split, -, done, rfl⟩ := Tree.exists_of_parse parsed
  refine Reading.readLines_induction (fun reading => reading.tree.All onName onDesc)
    (fun reading after line listed all next => ?_) (by simp [Tree.All, Keyed.values]) done
  exact Reading.all_readLine all (spells _)
    (Text.not_mem_of_mem_lines (split ▸ List.mem_cons_of_mem _ listed)) next

end All

/-- No name of mapping data is empty. -/
theorem Tree.Built.named {tree : Tree} (built : tree.Built) :
    tree.All (· ≠ "") fun _ => True := by
  induction built with
  | empty => simp [Tree.All, Tree.empty, Keyed.values]
  | parsed read =>
      exact Tree.all_parse (fun escaped => ⟨fun part there _ _ => partText_ne_empty escaped there,
        fun _ _ _ => trivial⟩) read
  | merged left right done leftNamed rightNamed => exact leftNamed.merge rightNamed done

end Tiny

end ArchiveRemap
