import ArchiveRemap.Proofs.RenameTable.Classes

/-!
Two tables one after the other. The composed table answers for the symbols of the first one:
it gives them what the second table makes of their new names.
-/

namespace ArchiveRemap.RenameTable

variable {table : RenameTable} (distinct : table.classes.keys.Nodup) (next : RenameTable)
include distinct

theorem class?_compose (name : String) :
    (table.compose next).class? name = (table.class? name).map (table.chained next) := by
  rw [class?, compose_eq distinct, Keyed.get?_map, class?]

theorem mapClass?_compose (name : String) :
    (table.compose next).mapClass? name =
      (table.mapClass? name).map fun middle => (next.mapClass? middle).getD middle := by
  rw [mapClass?, class?_compose distinct, mapClass?, Option.map_map, Option.map_map]
  rfl

theorem mapMember?_compose (kind : MemberKind) {owner : String} {entry : ClassRename}
    (known : table.class? owner = some entry) (name desc : String) :
    (table.compose next).mapMember? kind owner name desc =
      (table.mapMember? kind owner name desc).map fun middle =>
        (next.mapMember? kind entry.mapped middle (table.mapDesc desc)).getD middle := by
  have there := class?_compose distinct next owner
  rw [known, Option.map_some] at there
  simp only [mapMember?, there, known, members_chained, composeMembers, Option.bind_eq_bind,
    Option.bind_some, List.find?_map, Function.comp_def]
  cases first : (entry.members kind).find? fun member =>
      member.name = name && member.desc = desc with
  | none => rfl
  | some member =>
      have hit := List.find?_some first
      simp only [Bool.and_eq_true, decide_eq_true_eq] at hit
      obtain ⟨rfl, rfl⟩ := hit
      rfl

end ArchiveRemap.RenameTable
