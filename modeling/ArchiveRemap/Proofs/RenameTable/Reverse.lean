import ArchiveRemap.Proofs.RenameTable.Classes
import ArchiveRemap.Proofs.Symbol.Descriptor

/-!
The way back through a table. A table whose new names are distinct, class by class and member
by member, is undone by its reverse: on the names of its own classes and members, and on names
that neither of the two tables knows.
-/

namespace ArchiveRemap.RenameTable

open Descriptor (references renamed)

variable {table : RenameTable} {kind : MemberKind} {owner name desc mapped : String}

/-- The new names of the classes. -/
def targets (table : RenameTable) : List String := table.classes.values.map (·.mapped)

/-- No two classes share a new name, and no two members of one class share a new name and a
new descriptor. -/
structure Injective (table : RenameTable) : Prop where
  targets : table.targets.Nodup
  members : ∀ kind, ∀ entry ∈ table.classes.values,
    ∀ left ∈ entry.members kind, ∀ right ∈ entry.members kind,
      left.mapped = right.mapped → table.mapDesc left.desc = table.mapDesc right.desc →
        left.name = right.name ∧ left.desc = right.desc

instance : Decidable table.Injective :=
  decidable_of_iff (table.targets.Nodup ∧
      ∀ kind, ∀ entry ∈ table.classes.values,
        ∀ left ∈ entry.members kind, ∀ right ∈ entry.members kind,
          left.mapped = right.mapped → table.mapDesc left.desc = table.mapDesc right.desc →
            left.name = right.name ∧ left.desc = right.desc)
    ⟨fun all => ⟨all.1, all.2⟩, fun injective => ⟨injective.targets, injective.members⟩⟩

/-- No two classes share a new name, and no two members of one class share a new name and a
new descriptor. Names can stand in descriptors, and no method is turned into an initialiser. -/
structure Invertible (table : RenameTable) : Prop where
  targets : table.targets.Nodup
  plain : ∀ name ∈ table.classes.keys ++ table.targets, ';' ∉ name.toList
  members : ∀ kind, ∀ entry ∈ table.classes.values,
    ∀ left ∈ entry.members kind, ∀ right ∈ entry.members kind,
      left.mapped = right.mapped → table.mapDesc left.desc = table.mapDesc right.desc →
        left.name = right.name ∧ left.desc = right.desc
  methods : ∀ entry ∈ table.classes.values, ∀ method ∈ entry.methods,
    method.mapped.toList.head? ≠ some '<'

instance : Decidable table.Invertible :=
  decidable_of_iff (table.targets.Nodup ∧
      (∀ name ∈ table.classes.keys ++ table.targets, ';' ∉ name.toList) ∧
      (∀ kind, ∀ entry ∈ table.classes.values,
        ∀ left ∈ entry.members kind, ∀ right ∈ entry.members kind,
          left.mapped = right.mapped → table.mapDesc left.desc = table.mapDesc right.desc →
            left.name = right.name ∧ left.desc = right.desc) ∧
      ∀ entry ∈ table.classes.values, ∀ method ∈ entry.methods,
        method.mapped.toList.head? ≠ some '<')
    ⟨fun all => ⟨all.1, all.2.1, all.2.2.1, all.2.2.2⟩,
      fun invertible =>
        ⟨invertible.targets, invertible.plain, invertible.members, invertible.methods⟩⟩

/-- A class of the table, or a name that stands neither for a class nor for a new name. -/
def Settles (table : RenameTable) (name : String) : Prop :=
  name ∈ table.classes.keys ∨ name ∉ table.targets

instance : Decidable (table.Settles name) := inferInstanceAs (Decidable (_ ∨ _))

theorem mem_values_of_class? {entry : ClassRename} (known : table.class? name = some entry) :
    entry ∈ table.classes.values :=
  List.mem_map.mpr ⟨_, Keyed.mem_of_get? known, rfl⟩

theorem mem_keys_of_class? {entry : ClassRename} (known : table.class? name = some entry) :
    name ∈ table.classes.keys :=
  List.mem_map.mpr ⟨_, Keyed.mem_of_get? known, rfl⟩

theorem mem_targets_of_mapClass? (found : table.mapClass? name = some mapped) :
    mapped ∈ table.targets := by
  obtain ⟨entry, known, rfl⟩ := mapClass?_eq_some_iff.mp found
  exact List.mem_map.mpr ⟨entry, mem_values_of_class? known, rfl⟩

namespace Injective

variable (injective : table.Injective)
include injective

theorem keys_reverse : table.reverse.classes.keys = table.targets := by
  rw [reverse_eq injective.targets, Keyed.keys, List.map_map, RenameTable.targets, Keyed.values,
    List.map_map]
  rfl

theorem class?_reverse {entry : ClassRename} (known : table.class? name = some entry) :
    table.reverse.class? entry.mapped = some (table.turned name entry) := by
  apply Keyed.get?_of_mem
  · rw [injective.keys_reverse]
    exact injective.targets
  · rw [reverse_eq injective.targets]
    exact List.mem_map.mpr ⟨(name, entry), Keyed.mem_of_get? known, rfl⟩

/-- A member goes back to its name under the new names of its owner, itself and its type. -/
theorem member_back {entry : ClassRename} (known : table.class? owner = some entry)
    {member : MemberRename} (listed : member ∈ entry.members kind) :
    table.reverse.mapMember? kind entry.mapped member.mapped (table.mapDesc member.desc) =
      some member.name := by
  refine mapMember?_of_mem (injective.class?_reverse known) ?_ ?_
  · rw [members_turned]
    exact List.mem_map.mpr ⟨member, listed, rfl⟩
  · intro other there sameName sameDesc
    rw [members_turned] at there
    obtain ⟨origin, originListed, rfl⟩ := List.mem_map.mp there
    exact (injective.members kind entry (mem_values_of_class? known) origin originListed member
      listed sameName sameDesc).1

end Injective

namespace Invertible

variable (invertible : table.Invertible)
include invertible

theorem injective : table.Injective := ⟨invertible.targets, invertible.members⟩

theorem plain_of_mapClass? (found : table.mapClass? name = some mapped) :
    ';' ∉ mapped.toList :=
  invertible.plain _ (List.mem_append_right _ (mem_targets_of_mapClass? found))

theorem class_back (settled : table.Settles name) :
    renamed table.reverse.mapClass? (renamed table.mapClass? name) = name := by
  cases known : table.class? name with
  | some entry =>
      have back := invertible.injective.class?_reverse known
      simp only [renamed, mapClass?, known, back, Option.map_some, Option.getD_some, turned]
  | none =>
      have absent : name ∉ table.classes.keys := Keyed.get?_eq_none_iff.mp known
      have unknown : table.reverse.class? name = none := by
        refine Keyed.get?_eq_none_iff.mpr ?_
        rw [invertible.injective.keys_reverse]
        exact settled.resolve_left absent
      simp only [renamed, mapClass?, known, unknown, Option.map_none, Option.getD_none]

theorem desc_back (settled : ∀ name ∈ references desc, table.Settles name) :
    table.reverse.mapDesc (table.mapDesc desc) = desc := by
  rw [mapDesc, mapDesc, Descriptor.rename_rename fun _ _ => invertible.plain_of_mapClass?]
  exact Descriptor.rename_eq_self fun name member => invertible.class_back (settled name member)

theorem member_back (found : table.mapMember? kind owner name desc = some mapped) :
    table.reverse.mapMember? kind (renamed table.mapClass? owner) mapped (table.mapDesc desc) =
      some name := by
  obtain ⟨entry, known, member⟩ := mem_of_mapMember? found
  have target : renamed table.mapClass? owner = entry.mapped := by
    simp only [renamed, mapClass?, known, Option.map_some, Option.getD_some]
  rw [target]
  exact invertible.injective.member_back known member

end Invertible

end ArchiveRemap.RenameTable
