import ArchiveRemap.Proofs.RenameTable.Classes

/-!
The texts of a rename table. What is true of every name that is inserted is true of every name
of the table, and a class is there once, however often it was inserted.
-/

namespace ArchiveRemap

section All

variable {onDesc onName onMapped : String → Prop}

structure MemberRename.All (onDesc onName onMapped : String → Prop) (member : MemberRename) :
    Prop where
  desc : onDesc member.desc
  name : onName member.name
  mapped : onMapped member.mapped

structure ClassRename.All (onDesc onName onMapped : String → Prop) (entry : ClassRename) :
    Prop where
  mapped : onMapped entry.mapped
  members : ∀ kind, ∀ member ∈ entry.members kind, member.All onDesc onName onMapped

theorem ClassRename.mem_addMember {kind place : MemberKind} {entry : ClassRename}
    {member other : MemberRename} (listed : other ∈ (entry.addMember kind member).members place) :
    other ∈ entry.members place ∨ other = member := by
  cases kind <;> cases place <;>
    simp only [addMember, members, List.mem_append, List.mem_singleton] at listed ⊢ <;>
    first | exact listed | exact .inl listed

/-- Every descriptor, every name and every name that is given has its property. -/
def RenameTable.All (onDesc onName onMapped : String → Prop) (table : RenameTable) : Prop :=
  ∀ pair ∈ table.classes, onName pair.1 ∧ pair.2.All onDesc onName onMapped

/-- No name is empty. -/
abbrev ClassRename.Named (entry : ClassRename) : Prop :=
  entry.All (fun _ => True) (· ≠ "") (· ≠ "")

abbrev RenameTable.Named (table : RenameTable) : Prop :=
  table.All (fun _ => True) (· ≠ "") (· ≠ "")

section Decidable

variable [DecidablePred onDesc] [DecidablePred onName] [DecidablePred onMapped]

instance : DecidablePred (MemberRename.All onDesc onName onMapped) := fun member =>
  decidable_of_iff (onDesc member.desc ∧ onName member.name ∧ onMapped member.mapped)
    ⟨fun all => ⟨all.1, all.2.1, all.2.2⟩, fun all => ⟨all.desc, all.name, all.mapped⟩⟩

instance : DecidablePred (ClassRename.All onDesc onName onMapped) := fun entry =>
  decidable_of_iff (onMapped entry.mapped ∧
      ∀ kind, ∀ member ∈ entry.members kind, member.All onDesc onName onMapped)
    ⟨fun all => ⟨all.1, all.2⟩, fun all => ⟨all.mapped, all.members⟩⟩

instance : DecidablePred (RenameTable.All onDesc onName onMapped) := fun table =>
  inferInstanceAs (Decidable
    (∀ pair ∈ table.classes, onName pair.1 ∧ pair.2.All onDesc onName onMapped))

end Decidable

namespace RenameTable

variable {table : RenameTable} {name : String}

theorem All.insertClass (all : table.All onDesc onName onName) (named : onName name)
    {mapped : String} (given : onName mapped) :
    (table.insertClass name mapped).All onDesc onName onName := by
  intro pair member
  rcases Keyed.mem_adjust member with ⟨old, rfl | there, rfl⟩ | kept
  · exact ⟨named, given, fun kind member listed => by cases kind <;> cases listed⟩
  · have before := (all _ there).2.members
    refine ⟨named, given, fun kind => ?_⟩
    cases kind with
    | field => exact before .field
    | method => exact before .method
  · exact all pair kept

theorem All.insertMember (all : table.All onDesc onName onName) (named : onName name)
    (kind : MemberKind) {member : MemberRename} (well : member.All onDesc onName onName) :
    (table.insertMember kind name member).All onDesc onName onName := by
  intro pair listed
  rcases Keyed.mem_adjust listed with ⟨old, origin, rfl⟩ | kept
  · have before : old.All onDesc onName onName := by
      rcases origin with rfl | there
      · exact ⟨named, fun kind member listed => by cases kind <;> cases listed⟩
      · exact (all _ there).2
    refine ⟨named, by cases kind <;> exact before.mapped, fun place other found => ?_⟩
    rcases ClassRename.mem_addMember found with there | rfl
    · exact before.members place other there
    · exact well
  · exact all pair kept

theorem All.insertMembers (all : table.All onDesc onName onName) (named : onName name)
    (kind : MemberKind) {members : List MemberRename}
    (well : ∀ member ∈ members, member.All onDesc onName onName) :
    (table.insertMembers kind name members).All onDesc onName onName := by
  induction members generalizing table with
  | nil => exact all
  | cons member rest ih =>
      obtain ⟨first, later⟩ := List.forall_mem_cons.mp well
      exact ih (all.insertMember named kind first) later

theorem All.insertRenames (all : table.All onDesc onName onName)
    {renames : List (String × ClassRename)}
    (well : ∀ pair ∈ renames, onName pair.1 ∧ pair.2.All onDesc onName onName) :
    (table.insertRenames renames).All onDesc onName onName := by
  induction renames generalizing table with
  | nil => exact all
  | cons pair rest ih =>
      obtain ⟨⟨named, entry⟩, later⟩ := List.forall_mem_cons.mp well
      have inserted := all.insertClass named entry.mapped
      exact ih ((inserted.insertMembers named .field (entry.members .field)).insertMembers named
        .method (entry.members .method)) later

theorem distinct_insertMembers (kind : MemberKind) (distinct : table.classes.keys.Nodup)
    (members : List MemberRename) : (table.insertMembers kind name members).classes.keys.Nodup := by
  induction members generalizing table with
  | nil => exact distinct
  | cons member rest ih =>
      have inserted : (table.insertMember kind name member).classes.keys.Nodup := by
        rw [insertMember, Keyed.keys_adjust]
        exact Keyed.keys_put_nodup _ _ _ distinct
      exact ih inserted

/-- A class is there once, however often it was inserted. -/
theorem distinct_insertRenames (distinct : table.classes.keys.Nodup)
    (renames : List (String × ClassRename)) :
    (table.insertRenames renames).classes.keys.Nodup := by
  induction renames generalizing table with
  | nil => exact distinct
  | cons pair rest ih =>
      have inserted : (table.insertClass pair.1 pair.2.mapped).classes.keys.Nodup := by
        rw [insertClass, Keyed.keys_adjust]
        exact Keyed.keys_put_nodup _ _ _ distinct
      exact ih (distinct_insertMembers .method (distinct_insertMembers .field inserted _) _)

end RenameTable

end All

end ArchiveRemap
