import ArchiveRemap.Proofs.Archive.RoundTrip
import ArchiveRemap.Proofs.Archive.Written

/-!
What a renaming keeps. Entries are collected under the paths they get, so an entry is lost
only to a later one with its path, and with a table that confuses no classes only two classes
of one name can meet there, wherever they lay before.
-/

namespace ArchiveRemap

open Descriptor (renamed)

theorem Keyed.length_ofList_iff {κ : Type*} {α : Type*} [DecidableEq κ] {pairs : List (κ × α)} :
    (Keyed.ofList pairs).length = pairs.length ↔ (Keyed.keys pairs).Nodup := by
  constructor
  · intro same
    -- the collected keys are among those of the pairs, and as many as they are
    have inside : Keyed.keys (Keyed.ofList pairs) ⊆ Keyed.keys pairs :=
      fun _ => Keyed.mem_keys_ofList.mp
    have few : (Keyed.keys pairs).length ≤ (Keyed.keys (Keyed.ofList pairs)).length := by
      simp [Keyed.keys, same]
    have distinct := Keyed.keys_ofList_nodup pairs
    exact ((distinct.subperm inside).perm_of_length_le few).nodup_iff.mp distinct
  · intro distinct
    rw [Keyed.ofList_of_nodup distinct]

/-- An archive that was read has one entry for a path. -/
theorem Archive.paths_nodup_of_read {path text : String} {archive : Archive}
    (read : Archive.read path text = .ok archive) : archive.entries.keys.Nodup := by
  rw [Archive.read] at read
  split at read
  · rename_i other parsed
    cases read
    obtain ⟨tree, -, taken⟩ := Option.bind_eq_some_iff.mp parsed
    rw [take?] at taken
    simp only [Option.bind_eq_bind, Option.bind_eq_some_iff] at taken
    obtain ⟨fields, -, taken⟩ := taken
    split at taken
    · obtain ⟨members, -, rest⟩ := Option.bind_eq_some_iff.mp taken
      obtain ⟨pairs, -, made⟩ := Option.bind_eq_some_iff.mp rest
      cases made
      exact Keyed.keys_ofList_nodup pairs
    · cases taken
  · cases read

/-- The table confuses no classes of the archive, and no other entry lies where a class
goes. -/
structure RenameTable.Separates (table : RenameTable) (archive : Archive) : Prop where
  injective : ∀ left right name, table.mapClass? left = some name →
    table.mapClass? right = some name → left = right
  apart : ∀ node ∈ archive.classes, table.mapClass? node.name = none →
    ∀ name, table.mapClass? name ≠ some node.name
  others : ∀ pair ∈ archive.entries, pair.2.class? = none → ∀ node ∈ archive.classes,
    pair.1 ≠ ClassNode.pathOf (renamed table.mapClass? node.name)

/-- A moved entry stays if every entry that meets it becomes the same. -/
theorem get?_moved (renamer : Renamer) {archive : Archive} {pair : String × Entry}
    (member : pair ∈ archive.entries)
    (alone : ∀ other ∈ archive.entries,
      (movedEntry renamer other).1 = (movedEntry renamer pair).1 →
        movedEntry renamer other = movedEntry renamer pair) :
    Keyed.get? (movedEntry renamer pair).1
        (Keyed.ofList (archive.entries.map (movedEntry renamer))) =
      some (movedEntry renamer pair).2 := by
  apply Keyed.get?_ofList_of_alone (List.mem_map_of_mem member)
  rw [List.forall_mem_map]
  exact alone

section Kept

variable {table : RenameTable} {archive : Archive} {hierarchy : Hierarchy}

theorem RenameTable.Separates.name_eq (separates : table.Separates archive)
    {node other : ClassNode} (listed : node ∈ archive.classes) (known : other ∈ archive.classes)
    (same : renamed table.mapClass? node.name = renamed table.mapClass? other.name) :
    node.name = other.name := by
  rw [renamed, renamed] at same
  -- Where the table knows only one of the names, the other would be its new name.
  cases first : table.mapClass? node.name with
  | none =>
      cases second : table.mapClass? other.name with
      | none => simpa [first, second] using same
      | some name =>
          rw [first, second] at same
          cases same
          exact absurd second (separates.apart node listed first other.name)
  | some name =>
      cases second : table.mapClass? other.name with
      | none =>
          rw [first, second] at same
          cases same
          exact absurd first (separates.apart other known second node.name)
      | some mapped =>
          rw [first, second] at same
          cases same
          exact separates.injective _ _ name first second

/-- Entries that meet lay at one path, or they are classes with one name. -/
theorem RenameTable.Separates.meet_cases (separates : table.Separates archive)
    {left right : String × Entry} (leftMember : left ∈ archive.entries)
    (rightMember : right ∈ archive.entries)
    (meet : (movedEntry ⟨table, hierarchy⟩ left).1 = (movedEntry ⟨table, hierarchy⟩ right).1) :
    (left.2.class? = none ∧ right.2.class? = none ∧ left.1 = right.1) ∨
      ∃ node other, left.2.class? = some node ∧ right.2.class? = some other ∧
        node.name = other.name := by
  apply (moved_meet_cases separates.others leftMember rightMember meet).imp_right
  rintro ⟨node, other, leftKind, rightKind, same⟩
  have listed := Archive.mem_classes leftMember leftKind
  have known := Archive.mem_classes rightMember rightKind
  exact ⟨node, other, leftKind, rightKind, separates.name_eq listed known same⟩

variable (separates : table.Separates archive)
include separates

theorem get?_moved_of_class {node : ClassNode} (listed : node ∈ archive.classes)
    (alone : ∀ other ∈ archive.classes, other.name = node.name → other = node) :
    Keyed.get? (node.rename ⟨table, hierarchy⟩ []).path
        (Keyed.ofList (archive.entries.map (movedEntry ⟨table, hierarchy⟩))) =
      some (.classFile (node.rename ⟨table, hierarchy⟩ [])) := by
  obtain ⟨entry, value, held⟩ := List.mem_filterMap.mp listed
  obtain ⟨pair, member, rfl⟩ := List.mem_map.mp value
  have stays := get?_moved ⟨table, hierarchy⟩ member ?alone
  · rwa [movedEntry_of_class held] at stays
  · intro second known meet
    rcases separates.meet_cases known member meet with
      ⟨-, plain, -⟩ | ⟨other, same, otherHeld, sameHeld, name⟩
    · rw [held] at plain
      cases plain
    · rw [held] at sameHeld
      cases sameHeld
      have equal := alone other (Archive.mem_classes known otherHeld) name
      rw [movedEntry_of_class otherHeld, movedEntry_of_class held, equal]

variable (paths : archive.entries.keys.Nodup)
include paths

theorem get?_moved_of_other {pair : String × Entry} (member : pair ∈ archive.entries)
    (other : pair.2.class? = none) :
    Keyed.get? pair.1 (Keyed.ofList (archive.entries.map (movedEntry ⟨table, hierarchy⟩))) =
      some pair.2 := by
  have stays := get?_moved ⟨table, hierarchy⟩ member ?alone
  · rwa [movedEntry_of_other other] at stays
  · intro second known meet
    rcases separates.meet_cases known member meet with
      ⟨plain, -, same⟩ | ⟨_, node, -, held, -⟩
    · rw [movedEntry_of_other plain, movedEntry_of_other other]
      exact List.inj_on_of_nodup_map paths known member same
    · rw [other] at held
      cases held

/-- The new paths are distinct exactly if the class names are. -/
theorem keys_moved_nodup_iff :
    (Keyed.keys (archive.entries.map (movedEntry ⟨table, hierarchy⟩))).Nodup ↔
      (archive.classes.map (·.name)).Nodup := by
  -- Both sides are about pairs of entries, in the order of the archive.
  have byPath : (Keyed.keys (archive.entries.map (movedEntry ⟨table, hierarchy⟩))).Nodup ↔
      archive.entries.Pairwise fun left right =>
        (movedEntry ⟨table, hierarchy⟩ left).1 ≠ (movedEntry ⟨table, hierarchy⟩ right).1 :=
    List.pairwise_map.trans List.pairwise_map
  have byName : (archive.classes.map (·.name)).Nodup ↔
      archive.entries.Pairwise fun left right => ∀ node, left.2.class? = some node →
        ∀ other, right.2.class? = some other → node.name ≠ other.name :=
    List.pairwise_map.trans (List.pairwise_filterMap.trans List.pairwise_map)
  have apart : archive.entries.Pairwise fun left right => left.1 ≠ right.1 :=
    List.pairwise_map.mp paths
  rw [byPath, byName]
  constructor
  · intro distinct
    apply distinct.imp
    intro left right differ node held other otherHeld same
    apply differ
    simp only [movedEntry_of_class held, movedEntry_of_class otherHeld, ClassNode.rename,
      ClassNode.path, same]
  · intro distinct
    apply (distinct.and apart).imp_of_mem
    rintro left right leftMember rightMember ⟨names, differ⟩ meet
    rcases separates.meet_cases leftMember rightMember meet with
      ⟨-, -, same⟩ | ⟨node, other, leftHeld, rightHeld, same⟩
    · exact differ same
    · exact names node leftHeld other rightHeld same

end Kept

/-- What is not a class stays under its path, a class that shares its name with no other is
under the path of its new name, and the number of entries is the same exactly if no two
entries hold classes with one name. -/
theorem Archive.entries_kept {path text : String} {archive : Archive} {table : RenameTable}
    (read : Archive.read path text = .ok archive) (separates : table.Separates archive)
    (classpath : List Archive) :
    let renamer : Renamer :=
      ⟨table, .ofNodes (([archive] ++ classpath).flatMap Archive.classes)⟩
    ∃ renamed, (Renaming.ofInputs table .none classpath [archive]).archive = .ok renamed ∧
      (∀ pair ∈ archive.entries, pair.2.class? = none →
        renamed.entries.get? pair.1 = some pair.2) ∧
      (∀ node ∈ archive.classes,
        (∀ other ∈ archive.classes, other.name = node.name → other = node) →
          renamed.entries.get? (node.rename renamer []).path =
            some (.classFile (node.rename renamer []))) ∧
      (renamed.entries.length = archive.entries.length ↔
        (archive.classes.map (·.name)).Nodup) := by
  have paths := paths_nodup_of_read read
  refine ⟨_, archive_ofInputs_plain table classpath archive, ?_, ?_, ?_⟩
  · intro pair member other
    exact get?_moved_of_other separates paths member other
  · intro node listed alone
    exact get?_moved_of_class separates listed alone
  · rw [← keys_moved_nodup_iff separates paths, ← Keyed.length_ofList_iff, List.length_map]

/-- Two classes that exchange their names. -/
def exchangeTable : RenameTable :=
  ⟨"official", "named", [("a", ⟨"b", [], []⟩), ("b", ⟨"a", [], []⟩)]⟩

def bareClass (name : String) (access : UInt16) : Entry :=
  .classFile ⟨name, access, none, [], [], [], []⟩

/-- Classes that lie where others belong, one of them unknown to the table. -/
def strayArchive : Archive :=
  ⟨[("b.class", bareClass "a" 0), ("readme.txt", .text "a"), ("x", bareClass "b" 1),
    ("a.class", bareClass "c" 2), ("icon.png", .binary [137])]⟩

def namesakeArchive : Archive := ⟨[("x.class", bareClass "a" 0), ("y.class", bareClass "a" 1)]⟩

theorem exchangeTable_mapClass? (name : String) : exchangeTable.mapClass? name =
    if "a" = name then some "b" else if "b" = name then some "a" else none := by
  simp only [RenameTable.mapClass?, RenameTable.class?, exchangeTable, Keyed.get?]
  split_ifs <;> rfl

theorem exchangeTable_separates {archive : Archive}
    (names : ∀ node ∈ archive.classes, node.name ∈ ["a", "b", "c"])
    (others : ∀ pair ∈ archive.entries, pair.2.class? = none → ∀ node ∈ archive.classes,
      pair.1 ≠ ClassNode.pathOf (renamed exchangeTable.mapClass? node.name)) :
    exchangeTable.Separates archive where
  injective := by
    intro left right name
    grind [exchangeTable_mapClass?]
  apart := by
    intro node listed
    have known := names node listed
    grind [exchangeTable_mapClass?]
  others := others

theorem bareClass_distinct {archive : Archive} (paths : archive.entries.keys.Nodup)
    (bare : ∀ node ∈ archive.classes,
      node.annotations = [] ∧ node.fields = [] ∧ node.methods = []) :
    archive.Distinct where
  paths := paths
  classes := by
    intro node listed
    obtain ⟨notes, fields, methods⟩ := bare node listed
    constructor <;> simp [notes, fields, methods]

theorem Archive.entries_kept_stray :
    Archive.read "in.json" strayArchive.write = .ok strayArchive ∧
      exchangeTable.Separates strayArchive ∧ ∃ renamed,
        (Renaming.ofInputs exchangeTable .none [] [strayArchive]).archive = .ok renamed ∧
          renamed.entries.length = 5 := by
  have read : Archive.read "in.json" strayArchive.write = .ok strayArchive := by
    rw [(bareClass_distinct (by decide) (by decide)).read_write]
    rfl
  have separates : exchangeTable.Separates strayArchive :=
    exchangeTable_separates (by decide) (by decide)
  obtain ⟨renamed, done, -, -, count⟩ := Archive.entries_kept read separates []
  exact ⟨read, separates, renamed, done, count.mpr (by decide)⟩

/-- Of two classes with one name only the later is in the renamed archive. -/
theorem Archive.class_lost_to_namesake :
    Archive.read "in.json" namesakeArchive.write = .ok namesakeArchive ∧
      exchangeTable.Separates namesakeArchive ∧ namesakeArchive.entries.length = 2 ∧
        (Renaming.ofInputs exchangeTable .none [] [namesakeArchive]).archive =
          .ok ⟨[("b.class", bareClass "b" 1)]⟩ := by
  have read : Archive.read "in.json" namesakeArchive.write = .ok namesakeArchive := by
    rw [(bareClass_distinct (by decide) (by decide)).read_write]
    rfl
  exact ⟨read, exchangeTable_separates (by decide) (by decide), rfl, rfl⟩

end ArchiveRemap
