import ArchiveRemap.RenameTable.Compose

/-!
Tables as lists of classes. Reversing and composing insert classes one by one, each with its
members; while the names of the classes are distinct, each class comes out as one entry behind
the others.
-/

namespace ArchiveRemap

instance MemberKind.decidableForall {holds : MemberKind → Prop} [DecidablePred holds] :
    Decidable (∀ kind, holds kind) :=
  decidable_of_iff (holds .field ∧ holds .method)
    ⟨fun both kind => match kind with | .field => both.1 | .method => both.2,
      fun all => ⟨all .field, all .method⟩⟩

namespace RenameTable

/-- Insert a class with all that is known of it. -/
def insertRename (table : RenameTable) (name : String) (entry : ClassRename) : RenameTable :=
  ((table.insertClass name entry.mapped).insertMembers .field name entry.fields).insertMembers
    .method name entry.methods

def insertRenames (table : RenameTable) (renames : List (String × ClassRename)) : RenameTable :=
  renames.foldl (fun done (name, entry) => done.insertRename name entry) table

section Insert

variable {source target name : String} {before : Keyed String ClassRename}

theorem insertMembers_append (fresh : name ∉ before.keys) (kind : MemberKind)
    (entry : ClassRename) (members : List MemberRename) :
    insertMembers kind ⟨source, target, before ++ [(name, entry)]⟩ name members =
      ⟨source, target,
        before ++ [(name, members.foldl (fun done member => done.addMember kind member) entry)]⟩ := by
  induction members generalizing entry with
  | nil => rfl
  | cons member rest ih =>
      have step : insertMember kind ⟨source, target, before ++ [(name, entry)]⟩ name member =
          ⟨source, target, before ++ [(name, entry.addMember kind member)]⟩ := by
        simp only [insertMember, Keyed.adjust_append fresh, Keyed.adjust, if_true]
      have tail := ih (entry.addMember kind member)
      simp only [insertMembers] at tail ⊢
      rw [List.foldl_cons, step, tail, List.foldl_cons]

theorem foldl_addMember (kind : MemberKind) (entry : ClassRename) (members : List MemberRename) :
    members.foldl (fun done member => done.addMember kind member) entry =
      match kind with
      | .field => { entry with fields := entry.fields ++ members }
      | .method => { entry with methods := entry.methods ++ members } := by
  induction members generalizing entry with
  | nil => cases kind <;> simp
  | cons member rest ih =>
      rw [List.foldl_cons, ih]
      cases kind <;> simp [ClassRename.addMember]

theorem insertRename_of_fresh (fresh : name ∉ before.keys) (entry : ClassRename) :
    insertRename ⟨source, target, before⟩ name entry =
      ⟨source, target, before ++ [(name, entry)]⟩ := by
  have first : insertClass ⟨source, target, before⟩ name entry.mapped =
      ⟨source, target, before ++ [(name, ⟨entry.mapped, [], []⟩)]⟩ := by
    rw [insertClass, ← List.append_nil before, Keyed.adjust_append fresh, List.append_nil]
    rfl
  rw [insertRename, first, insertMembers_append fresh, insertMembers_append fresh,
    foldl_addMember, foldl_addMember]
  rfl

end Insert

theorem insertRenames_of_nodup {source target : String}
    (before renames : List (String × ClassRename))
    (distinct : (Keyed.keys (before ++ renames)).Nodup) :
    insertRenames ⟨source, target, before⟩ renames = ⟨source, target, before ++ renames⟩ := by
  induction renames generalizing before with
  | nil => rw [List.append_nil]; rfl
  | cons first rest ih =>
      obtain ⟨name, entry⟩ := first
      have fresh : name ∉ Keyed.keys before := by
        rw [Keyed.keys, List.map_append, List.map_cons] at distinct
        exact fun member =>
          (List.nodup_append.mp distinct).2.2 name member name List.mem_cons_self rfl
      have moved : before ++ (name, entry) :: rest = (before ++ [(name, entry)]) ++ rest := by
        rw [List.append_assoc, List.singleton_append]
      rw [moved] at distinct ⊢
      rw [← ih _ distinct, ← insertRename_of_fresh fresh]
      rfl

/-! Tables that were filled by insertions. -/

/-- An empty table, and whatever comes of it when classes and members are inserted. -/
inductive Filled : RenameTable → Prop where
  | empty (source target : String) : Filled (.empty source target)
  | insertClass {table : RenameTable} (filled : Filled table) (name mapped : String) :
      Filled (table.insertClass name mapped)
  | insertMember {table : RenameTable} (filled : Filled table) (kind : MemberKind)
      (owner : String) (member : MemberRename) : Filled (table.insertMember kind owner member)

theorem Filled.insertMembers {table : RenameTable} (filled : table.Filled) (kind : MemberKind)
    (owner : String) (members : List MemberRename) :
    (table.insertMembers kind owner members).Filled := by
  induction members generalizing table with
  | nil => exact filled
  | cons member rest ih => exact ih (filled.insertMember kind owner member)

theorem Filled.insertRenames {table : RenameTable} (filled : table.Filled)
    (renames : List (String × ClassRename)) : (table.insertRenames renames).Filled := by
  induction renames generalizing table with
  | nil => exact filled
  | cons pair rest ih =>
      have opened := filled.insertClass pair.1 pair.2.mapped
      exact ih ((opened.insertMembers .field _ _).insertMembers .method _ _)

/-- Insertions lead to every table that has each class once, in any order, and to no other. -/
theorem filled_iff {table : RenameTable} : table.Filled ↔ table.classes.keys.Nodup := by
  constructor
  · intro filled
    induction filled with
    | empty source target => exact List.nodup_nil
    | insertClass filled name mapped ih =>
        rw [RenameTable.insertClass, Keyed.keys_adjust]
        exact Keyed.keys_put_nodup _ _ _ ih
    | insertMember filled kind owner member ih =>
        rw [RenameTable.insertMember, Keyed.keys_adjust]
        exact Keyed.keys_put_nodup _ _ _ ih
  · intro distinct
    have made : insertRenames (.empty table.source table.target) table.classes = table :=
      insertRenames_of_nodup [] table.classes distinct
    rw [← made]
    exact (Filled.empty table.source table.target).insertRenames table.classes

/-! Reversed and composed tables, class by class. -/

/-- The entry of a class on the way back. -/
def turned (table : RenameTable) (name : String) (entry : ClassRename) : ClassRename :=
  ⟨name, table.reverseMembers entry.fields, table.reverseMembers entry.methods⟩

/-- The entry of a class on the way through two tables. -/
def chained (table next : RenameTable) (entry : ClassRename) : ClassRename :=
  ⟨(next.mapClass? entry.mapped).getD entry.mapped,
    composeMembers .field table next entry.mapped entry.fields,
    composeMembers .method table next entry.mapped entry.methods⟩

variable {table : RenameTable}

theorem reverse_eq (distinct : (table.classes.values.map (·.mapped)).Nodup) :
    table.reverse = ⟨table.target, table.source,
      table.classes.map fun (name, entry) => (entry.mapped, table.turned name entry)⟩ := by
  have list : table.reverse = insertRenames (empty table.target table.source)
      (table.classes.map fun (name, entry) => (entry.mapped, table.turned name entry)) := by
    rw [insertRenames, List.foldl_map]
    rfl
  rw [list, empty, insertRenames_of_nodup, List.nil_append]
  rw [Keyed.values, List.map_map] at distinct
  rwa [List.nil_append, Keyed.keys, List.map_map]

theorem compose_eq (distinct : table.classes.keys.Nodup) (next : RenameTable) :
    table.compose next = ⟨table.source, next.target,
      table.classes.map fun (name, entry) => (name, table.chained next entry)⟩ := by
  have list : table.compose next = insertRenames (empty table.source next.target)
      (table.classes.map fun (name, entry) => (name, table.chained next entry)) := by
    rw [insertRenames, List.foldl_map]
    rfl
  rw [list, empty, insertRenames_of_nodup, List.nil_append]
  rwa [List.nil_append, Keyed.keys, List.map_map]

theorem members_turned (kind : MemberKind) (name : String) (entry : ClassRename) :
    (table.turned name entry).members kind = table.reverseMembers (entry.members kind) := by
  cases kind <;> rfl

theorem members_chained (kind : MemberKind) (next : RenameTable) (entry : ClassRename) :
    (table.chained next entry).members kind =
      composeMembers kind table next entry.mapped (entry.members kind) := by
  cases kind <;> rfl

/-! Looking members up. -/

theorem mapClass?_eq_some_iff {name mapped : String} :
    table.mapClass? name = some mapped ↔
      ∃ entry, table.class? name = some entry ∧ entry.mapped = mapped := by
  rw [mapClass?, Option.map_eq_some_iff]

variable {kind : MemberKind} {owner name desc mapped : String}

theorem mem_of_mapMember? (found : table.mapMember? kind owner name desc = some mapped) :
    ∃ entry, table.class? owner = some entry ∧ ⟨name, desc, mapped⟩ ∈ entry.members kind := by
  simp only [mapMember?, Option.bind_eq_bind, Option.bind_eq_some_iff, Option.some.injEq] at found
  obtain ⟨entry, known, member, first, rfl⟩ := found
  have hit := List.find?_some first
  simp only [Bool.and_eq_true, decide_eq_true_eq] at hit
  obtain ⟨rfl, rfl⟩ := hit
  exact ⟨entry, known, List.mem_of_find?_eq_some first⟩

/-- A member that is there is found, under the name that all members like it agree on. -/
theorem mapMember?_of_mem {entry : ClassRename} (known : table.class? owner = some entry)
    (member : ⟨name, desc, mapped⟩ ∈ entry.members kind)
    (agree : ∀ other ∈ entry.members kind,
      other.name = name → other.desc = desc → other.mapped = mapped) :
    table.mapMember? kind owner name desc = some mapped := by
  have found : ((entry.members kind).find? fun other =>
      other.name = name && other.desc = desc).isSome := by
    rw [List.find?_isSome]
    exact ⟨_, member, by simp⟩
  obtain ⟨other, first⟩ := Option.isSome_iff_exists.mp found
  have hit := List.find?_some first
  simp only [Bool.and_eq_true, decide_eq_true_eq] at hit
  have same := agree other (List.mem_of_find?_eq_some first) hit.1 hit.2
  simp only [mapMember?, known, Option.bind_eq_bind, Option.bind_some, first, same]

end RenameTable

end ArchiveRemap
