import ArchiveRemap.Proofs.RenameTable.Compose
import ArchiveRemap.Proofs.RenameTable.Reverse

/-!
Tables in turn. A composed table does to every symbol and every descriptor of its first table
what the two tables do one after the other. Composed with its own reverse, an injective table
keeps every symbol, in whatever order the classes are gone through.
-/

namespace ArchiveRemap

open Descriptor (references renamed)

namespace RenameTable

variable {table there back : RenameTable}

/-! One table after the other. -/

theorem mapDesc_compose (distinct : table.classes.keys.Nodup)
    (plain : ∀ target ∈ table.targets, ';' ∉ target.toList) (next : RenameTable) {desc : String}
    (known : ∀ name ∈ references desc, name ∈ table.classes.keys) :
    (table.compose next).mapDesc desc = next.mapDesc (table.mapDesc desc) := by
  have free (name mapped : String) (found : table.mapClass? name = some mapped) :
      ';' ∉ mapped.toList := plain mapped (mem_targets_of_mapClass? found)
  rw [mapDesc, mapDesc, mapDesc, Descriptor.rename_rename free]
  refine Descriptor.rename_congr fun name member => ?_
  cases found : table.class? name with
  | none => exact absurd (known name member) (Keyed.get?_eq_none_iff.mp found)
  | some entry =>
      have composed := mapClass?_compose distinct next name
      simp only [mapClass?, found, Option.map_some] at composed
      simp only [renamed, mapClass?, composed, found, Option.map_some, Option.getD_some]

/-- A composed table renames a class of its first table to what the second one makes of the new
name, a member to what the second one makes of the new member of the new owner, and leaves a
name as the first table gives it where the second one does not know it. Of other symbols it
knows nothing. It renames descriptors of known classes as the two tables do in turn. -/
theorem compose_applies_in_turn (filled : table.Filled)
    (plain : ∀ target ∈ table.targets, ';' ∉ target.toList) (next : RenameTable) :
    (∀ name, (table.compose next).mapClass? name =
        (table.mapClass? name).map fun middle => (next.mapClass? middle).getD middle) ∧
      (∀ kind owner name desc, (table.compose next).mapMember? kind owner name desc =
        (table.mapMember? kind owner name desc).map fun middle =>
          (next.mapMember? kind (renamed table.mapClass? owner) middle
            (table.mapDesc desc)).getD middle) ∧
        ∀ desc, (∀ name ∈ references desc, name ∈ table.classes.keys) →
          (table.compose next).mapDesc desc = next.mapDesc (table.mapDesc desc) := by
  have distinct := filled_iff.mp filled
  refine ⟨mapClass?_compose distinct next, fun kind owner name desc => ?_,
    fun desc known => mapDesc_compose distinct plain next known⟩
  cases known : table.class? owner with
  | none =>
      have unknown := class?_compose distinct next owner
      rw [known, Option.map_none] at unknown
      simp only [mapMember?, known, unknown, Option.bind_eq_bind, Option.bind_none,
        Option.map_none]
  | some entry =>
      have target : renamed table.mapClass? owner = entry.mapped := by
        simp only [renamed, mapClass?, known, Option.map_some, Option.getD_some]
      rw [target]
      exact mapMember?_compose distinct next kind known name desc

/-- Two entries for one field, a class that only a member brought in, and two classes that take
each other's names. -/
def crossedTable : RenameTable :=
  ⟨"official", "middle",
    [("a", ⟨"b", [⟨"x", "La;", "y"⟩, ⟨"x", "La;", "z"⟩, ⟨"x", "Lb;", "y"⟩], []⟩),
      ("L", ⟨"L", [], [⟨"m", "(LL;[La;)V", "run"⟩]⟩),
      ("b", ⟨"a", [], [⟨"m", "()Lb;", "m"⟩]⟩)]⟩

def furtherTable : RenameTable :=
  ⟨"middle", "named",
    [("b", ⟨"p/First", [⟨"y", "Lb;", "count"⟩], []⟩), ("L", ⟨"La", [], []⟩)]⟩

theorem compose_applies_in_turn_crossed :
    crossedTable.Filled ∧ (∀ target ∈ crossedTable.targets, ';' ∉ target.toList) ∧
      (∀ name ∈ references "(LL;[La;I)Lb;", name ∈ crossedTable.classes.keys) ∧
        (crossedTable.compose furtherTable).mapClass? "a" = some "p/First" ∧
          (crossedTable.compose furtherTable).mapMember? .field "a" "x" "La;" = some "count" ∧
            (crossedTable.compose furtherTable).mapMember? .field "a" "x" "Lb;" = some "y" ∧
              (crossedTable.compose furtherTable).mapDesc "(LL;[La;I)Lb;" =
                furtherTable.mapDesc (crossedTable.mapDesc "(LL;[La;I)Lb;") := by
  have filled : crossedTable.Filled := filled_iff.mpr (by decide)
  have plain : ∀ target ∈ crossedTable.targets, ';' ∉ target.toList := by decide
  have known : ∀ name ∈ references "(LL;[La;I)Lb;", name ∈ crossedTable.classes.keys := by
    decide +kernel
  obtain ⟨classes, members, descs⟩ := compose_applies_in_turn filled plain furtherTable
  exact ⟨filled, plain, known, (classes "a").trans (by decide +kernel),
    (members .field "a" "x" "La;").trans (by decide +kernel),
    (members .field "a" "x" "Lb;").trans (by decide +kernel), descs _ known⟩

/-! There and back. -/

/-- The same table with its classes in some order. -/
structure Reorders (table other : RenameTable) : Prop where
  source : table.source = other.source
  target : table.target = other.target
  classes : table.classes.Perm other.classes

namespace Reorders

variable (reorders : there.Reorders table)
include reorders

theorem distinct (distinct : table.classes.keys.Nodup) : there.classes.keys.Nodup :=
  (reorders.classes.map Prod.fst).nodup_iff.mpr distinct

theorem class?_eq (distinct : table.classes.keys.Nodup) : there.class? = table.class? :=
  funext fun name => Keyed.get?_perm name reorders.classes distinct

theorem mapDesc_eq (distinct : table.classes.keys.Nodup) : there.mapDesc = table.mapDesc := by
  have classes : there.mapClass? = table.mapClass? := by
    funext name
    rw [mapClass?, mapClass?, reorders.class?_eq distinct]
  funext desc
  rw [mapDesc, mapDesc, classes]

theorem injective (distinct : table.classes.keys.Nodup) (injective : table.Injective) :
    there.Injective where
  targets := by
    have same : there.targets.Perm table.targets := (reorders.classes.map Prod.snd).map _
    exact same.nodup_iff.mpr injective.targets
  members kind entry listed := by
    rw [reorders.mapDesc_eq distinct]
    exact injective.members kind entry ((reorders.classes.map Prod.snd).mem_iff.mp listed)

end Reorders

end RenameTable

/-- A class that keeps its name, with the same members under their own names. -/
def ClassRename.still (name : String) (entry : ClassRename) : ClassRename :=
  let keep (member : MemberRename) : MemberRename := { member with mapped := member.name }
  ⟨name, entry.fields.map keep, entry.methods.map keep⟩

namespace RenameTable

variable {table there back : RenameTable}

/-- The table of the same symbols from the source namespace to itself. -/
def identityOf (table : RenameTable) : RenameTable :=
  ⟨table.source, table.source, table.classes.map fun (name, entry) => (name, entry.still name)⟩

theorem chained_eq_still {next : RenameTable} {name : String} {entry : ClassRename}
    (classBack : next.mapClass? entry.mapped = some name)
    (memberBack : ∀ kind, ∀ member ∈ entry.members kind,
      next.mapMember? kind entry.mapped member.mapped (table.mapDesc member.desc) =
        some member.name) :
    table.chained next entry = entry.still name := by
  have members (kind : MemberKind) :
      composeMembers kind table next entry.mapped (entry.members kind) =
        (entry.members kind).map fun member => { member with mapped := member.name } :=
    List.map_congr_left fun member listed => by
      simp only [memberBack kind member listed, Option.getD_some]
  rw [chained, classBack, Option.getD_some]
  exact congrArg₂ (ClassRename.mk name) (members .field) (members .method)

/-- The way there and back through an injective table keeps every class, field and method of
the table under its own name and knows no other symbol, and the reverse finds the symbol behind
every new name. The classes may be gone through in any order on the way there, and in any other
one when the table is turned around. -/
theorem compose_reverse_keeps (filled : table.Filled) (injective : table.Injective)
    (thereOrder : there.Reorders table) (backOrder : back.Reorders table) :
    (there.compose back.reverse).Reorders table.identityOf ∧
      (∀ name mapped, table.mapClass? name = some mapped →
        back.reverse.mapClass? mapped = some name) ∧
        ∀ owner entry, table.class? owner = some entry → ∀ kind, ∀ member ∈ entry.members kind,
          back.reverse.mapMember? kind entry.mapped member.mapped (table.mapDesc member.desc) =
            some member.name := by
  -- Both orders look up alike, so each lemma about one of them is read as one about the table.
  have distinct := filled_iff.mp filled
  have thereDistinct := thereOrder.distinct distinct
  have backInjective := backOrder.injective distinct injective
  have classBack (name : String) (entry : ClassRename) (known : table.class? name = some entry) :
      back.reverse.mapClass? entry.mapped = some name := by
    rw [← backOrder.class?_eq distinct] at known
    exact mapClass?_eq_some_iff.mpr ⟨_, backInjective.class?_reverse known, rfl⟩
  have memberBack (owner : String) (entry : ClassRename)
      (known : table.class? owner = some entry) (kind : MemberKind) (member : MemberRename)
      (listed : member ∈ entry.members kind) :
      back.reverse.mapMember? kind entry.mapped member.mapped (table.mapDesc member.desc) =
        some member.name := by
    rw [← backOrder.class?_eq distinct] at known
    rw [← backOrder.mapDesc_eq distinct]
    exact backInjective.member_back known listed
  refine ⟨?_, fun name mapped found => ?_, memberBack⟩
  · have backTarget : back.reverse.target = table.source := by
      rw [reverse_eq backInjective.targets, backOrder.source]
    have kept : (there.classes.map fun (name, entry) =>
        (name, there.chained back.reverse entry)) =
          there.classes.map fun (name, entry) => (name, entry.still name) := by
      refine List.map_congr_left fun (name, entry) listed => ?_
      have known : table.class? name = some entry :=
        Keyed.get?_of_mem distinct (thereOrder.classes.mem_iff.mp listed)
      refine congrArg (Prod.mk name) (chained_eq_still (classBack name entry known) ?_)
      rw [thereOrder.mapDesc_eq distinct]
      exact memberBack name entry known
    rw [compose_eq thereDistinct, kept, backTarget]
    exact ⟨thereOrder.source, rfl, thereOrder.classes.map _⟩
  · obtain ⟨entry, known, rfl⟩ := mapClass?_eq_some_iff.mp found
    exact classBack name entry known

theorem compose_reverse_keeps_crossed :
    let there : RenameTable := { crossedTable with classes := crossedTable.classes.reverse }
    let back : RenameTable := { crossedTable with classes := crossedTable.classes.rotate 1 }
    crossedTable.Filled ∧ crossedTable.Injective ∧ there.Reorders crossedTable ∧
      back.Reorders crossedTable ∧
        (there.compose back.reverse).Reorders crossedTable.identityOf ∧
          back.reverse.mapClass? "b" = some "a" ∧
            back.reverse.mapMember? .field "b" "z" (crossedTable.mapDesc "La;") = some "x" := by
  intro there back
  have filled : crossedTable.Filled := filled_iff.mpr (by decide)
  have injective : crossedTable.Injective := by decide +kernel
  have thereOrder : there.Reorders crossedTable := ⟨rfl, rfl, by decide +kernel⟩
  have backOrder : back.Reorders crossedTable := ⟨rfl, rfl, by decide +kernel⟩
  obtain ⟨identity, classes, members⟩ :=
    compose_reverse_keeps filled injective thereOrder backOrder
  exact ⟨filled, injective, thereOrder, backOrder, identity, classes "a" "b" (by decide +kernel),
    members "a" _ rfl .field ⟨"x", "La;", "z"⟩ (by decide +kernel)⟩

end RenameTable

end ArchiveRemap
