import ArchiveRemap.Archive.Renaming
import ArchiveRemap.Proofs.RenameTable.Reverse
import Mathlib.Data.List.Nodup

/-!
Archives there and back. Whatever stands in an archive is named by classes that the table
settles or by members that have their own entries in it, so what a table renames its reverse
names as before, from the class names inside annotations up to the paths of the entries.
-/

namespace ArchiveRemap

open Descriptor (references renamed)

/-! What an archive may refer to. -/

namespace RenameTable

def SettlesDesc (table : RenameTable) (desc : String) : Prop :=
  ∀ name ∈ references desc, table.Settles name

/-- Whether the owner itself, and not only a supertype, has a new name for a member. -/
def Owns (table : RenameTable) (kind : MemberKind) (owner name desc : String) : Prop :=
  (table.mapMember? kind owner name desc).isSome

instance {table : RenameTable} {desc : String} : Decidable (table.SettlesDesc desc) :=
  inferInstanceAs (Decidable (∀ name ∈ references desc, table.Settles name))

instance {table : RenameTable} {kind : MemberKind} {owner name desc : String} :
    Decidable (table.Owns kind owner name desc) :=
  inferInstanceAs (Decidable (_ = true))

end RenameTable

namespace Element

mutual

def Fits (table : RenameTable) : Element → Prop
  | .type desc => table.SettlesDesc desc
  | .constant desc value => table.SettlesDesc desc ∧
      ∀ owner ∈ Descriptor.objectType? desc, table.Owns .field owner value desc
  | .array items => ItemsFit table items
  | .nested desc values => table.SettlesDesc desc ∧ ValuesFit table values
  | .bool _ => True
  | .int _ => True
  | .string _ => True

def ItemsFit (table : RenameTable) : List Element → Prop
  | [] => True
  | item :: rest => item.Fits table ∧ ItemsFit table rest

def ValuesFit (table : RenameTable) : List (String × Element) → Prop
  | [] => True
  | (_, item) :: rest => item.Fits table ∧ ValuesFit table rest

end

mutual

instance decidableFits {table : RenameTable} : (element : Element) → Decidable (element.Fits table)
  | .type desc => inferInstanceAs (Decidable (table.SettlesDesc desc))
  | .constant desc value => inferInstanceAs (Decidable (table.SettlesDesc desc ∧
      ∀ owner ∈ Descriptor.objectType? desc, table.Owns .field owner value desc))
  | .array items => decidableItemsFit items
  | .nested _ values => @instDecidableAnd _ _ _ (decidableValuesFit values)
  | .bool _ => .isTrue trivial
  | .int _ => .isTrue trivial
  | .string _ => .isTrue trivial

instance decidableItemsFit {table : RenameTable} :
    (items : List Element) → Decidable (ItemsFit table items)
  | [] => .isTrue trivial
  | item :: rest => @instDecidableAnd _ _ (decidableFits item) (decidableItemsFit rest)

instance decidableValuesFit {table : RenameTable} :
    (values : List (String × Element)) → Decidable (ValuesFit table values)
  | [] => .isTrue trivial
  | (_, item) :: rest => @instDecidableAnd _ _ (decidableFits item) (decidableValuesFit rest)

end

end Element

structure AnnotationNode.Fits (table : RenameTable) (note : AnnotationNode) : Prop where
  desc : table.SettlesDesc note.desc
  values : Element.ValuesFit table note.values

instance {table : RenameTable} {note : AnnotationNode} : Decidable (note.Fits table) :=
  decidable_of_iff (table.SettlesDesc note.desc ∧ Element.ValuesFit table note.values)
    ⟨fun both => ⟨both.1, both.2⟩, fun fits => ⟨fits.desc, fits.values⟩⟩

structure MemberNode.Fits (table : RenameTable) (kind : MemberKind) (owner : String)
    (member : MemberNode) : Prop where
  desc : table.SettlesDesc member.desc
  name : Renamer.keepsName kind member.name ∨ table.Owns kind owner member.name member.desc
  annotations : ∀ note ∈ member.annotations, note.Fits table

instance {table : RenameTable} {kind : MemberKind} {owner : String} {member : MemberNode} :
    Decidable (member.Fits table kind owner) :=
  decidable_of_iff (table.SettlesDesc member.desc ∧
      (Renamer.keepsName kind member.name ∨ table.Owns kind owner member.name member.desc) ∧
      ∀ note ∈ member.annotations, note.Fits table)
    ⟨fun all => ⟨all.1, all.2.1, all.2.2⟩, fun fits => ⟨fits.desc, fits.name, fits.annotations⟩⟩

structure ClassNode.Fits (table : RenameTable) (node : ClassNode) : Prop where
  name : table.Settles node.name
  parents : ∀ parent ∈ node.superName.toList ++ node.interfaces, table.Settles parent
  annotations : ∀ note ∈ node.annotations, note.Fits table
  members : ∀ kind, ∀ member ∈ node.members kind, member.Fits table kind node.name

instance {table : RenameTable} {node : ClassNode} : Decidable (node.Fits table) :=
  decidable_of_iff (table.Settles node.name ∧
      (∀ parent ∈ node.superName.toList ++ node.interfaces, table.Settles parent) ∧
      (∀ note ∈ node.annotations, note.Fits table) ∧
      ∀ kind, ∀ member ∈ node.members kind, member.Fits table kind node.name)
    ⟨fun all => ⟨all.1, all.2.1, all.2.2.1, all.2.2.2⟩,
      fun fits => ⟨fits.name, fits.parents, fits.annotations, fits.members⟩⟩

/-- Every class lies at its own path and refers to nothing that could not come back; no other
entry lies where a class lies after the renaming. -/
structure Archive.Fits (table : RenameTable) (archive : Archive) : Prop where
  paths : archive.entries.keys.Nodup
  classes : ∀ pair ∈ archive.entries, ∀ node ∈ pair.2.class?,
    pair.1 = node.path ∧ node.Fits table
  others : ∀ pair ∈ archive.entries, pair.2.class? = none → ∀ node ∈ archive.classes,
    pair.1 ≠ ClassNode.pathOf (renamed table.mapClass? node.name)

instance {table : RenameTable} {archive : Archive} : Decidable (archive.Fits table) :=
  decidable_of_iff (archive.entries.keys.Nodup ∧
      (∀ pair ∈ archive.entries, ∀ node ∈ pair.2.class?,
        pair.1 = node.path ∧ node.Fits table) ∧
      ∀ pair ∈ archive.entries, pair.2.class? = none → ∀ node ∈ archive.classes,
        pair.1 ≠ ClassNode.pathOf (renamed table.mapClass? node.name))
    ⟨fun all => ⟨all.1, all.2.1, all.2.2⟩, fun fits => ⟨fits.paths, fits.classes, fits.others⟩⟩

/-! Names, descriptors and members against any two hierarchies. -/

namespace RenameTable.Invertible

variable {table : RenameTable} (invertible : table.Invertible) {there back : Hierarchy}
include invertible

theorem keepsName_mapped {kind : MemberKind} {owner name desc mapped : String}
    (found : table.mapMember? kind owner name desc = some mapped) :
    Renamer.keepsName kind mapped = false := by
  obtain ⟨entry, known, member⟩ := mem_of_mapMember? found
  cases kind with
  | field => rfl
  | method =>
      have start := invertible.methods entry (mem_values_of_class? known) _ member
      simpa [Renamer.keepsName] using start

theorem mapMember_back {kind : MemberKind} {owner name desc : String}
    (own : Renamer.keepsName kind name ∨ table.Owns kind owner name desc) :
    (Renamer.mk table.reverse back).mapMember kind ((Renamer.mk table there).mapClass owner)
      ((Renamer.mk table there).mapMember kind owner name desc) (table.mapDesc desc) = name := by
  by_cases kept : Renamer.keepsName kind name
  · simp only [Renamer.mapMember, kept, if_true]
  · obtain ⟨mapped, found⟩ := Option.isSome_iff_exists.mp (own.resolve_left kept)
    have last : table.reverse.mapMember? kind ((Renamer.mk table there).mapClass owner) mapped
        (table.mapDesc desc) = some name := invertible.member_back found
    simp only [Renamer.mapMember, kept, Renamer.inherited?, found, Option.getD_some,
      Bool.false_eq_true, if_false, invertible.keepsName_mapped found, last]

theorem constant_back {desc value : String}
    (own : ∀ owner ∈ Descriptor.objectType? desc, table.Owns .field owner value desc) :
    Element.renameConstant ⟨table.reverse, back⟩ (table.mapDesc desc)
      (Element.renameConstant ⟨table, there⟩ desc value) = value := by
  cases object : Descriptor.objectType? desc with
  | none =>
      have still : Descriptor.objectType? (table.mapDesc desc) = none :=
        Descriptor.objectType?_rename_of_none object
      simp only [Element.renameConstant, object, still]
  | some owner =>
      obtain ⟨mapped, found⟩ := Option.isSome_iff_exists.mp (own owner object)
      obtain ⟨entry, known, -⟩ := mem_of_mapMember? found
      have plain := invertible.plain owner (List.mem_append_left _ (mem_keys_of_class? known))
      have moved : Descriptor.objectType? (table.mapDesc desc) =
          some ((Renamer.mk table there).mapClass owner) :=
        (Descriptor.objectType?_rename plain object).2
      simp only [Element.renameConstant, object, moved]
      exact invertible.mapMember_back (.inr (own owner object))

end RenameTable.Invertible

/-! Everything that stands in an archive comes back, from the inside out. -/

section Back

variable {table : RenameTable} {there back : Hierarchy}

namespace Element

mutual

theorem rename_back (invertible : table.Invertible) (element : Element)
    (fits : element.Fits table) :
    (element.rename ⟨table, there⟩).rename ⟨table.reverse, back⟩ = element := by
  cases element with
  | bool truth => rfl
  | int number => rfl
  | string text => rfl
  | type desc =>
      rw [rename, rename]
      exact congrArg Element.type (invertible.desc_back fits)
  | constant desc value =>
      obtain ⟨settled, own⟩ := fits
      rw [rename, rename]
      exact congrArg₂ Element.constant (invertible.desc_back settled)
        (invertible.constant_back own)
  | array items =>
      rw [rename, rename, renameItems_back invertible items fits]
  | nested desc values =>
      obtain ⟨settled, inside⟩ := fits
      rw [rename, rename, renameValues_back invertible values inside]
      exact congrArg (Element.nested · values) (invertible.desc_back settled)

theorem renameItems_back (invertible : table.Invertible) (items : List Element)
    (fit : ItemsFit table items) :
    renameItems ⟨table.reverse, back⟩ (renameItems ⟨table, there⟩ items) = items := by
  cases items with
  | nil => rfl
  | cons item rest =>
      obtain ⟨first, others⟩ := fit
      rw [renameItems, renameItems, rename_back invertible item first,
        renameItems_back invertible rest others]

theorem renameValues_back (invertible : table.Invertible) (values : List (String × Element))
    (fit : ValuesFit table values) :
    renameValues ⟨table.reverse, back⟩ (renameValues ⟨table, there⟩ values) = values := by
  cases values with
  | nil => rfl
  | cons head rest =>
      obtain ⟨name, item⟩ := head
      obtain ⟨first, others⟩ := fit
      rw [renameValues, renameValues, rename_back invertible item first,
        renameValues_back invertible rest others]

end

end Element

variable (invertible : table.Invertible)
include invertible

theorem AnnotationNode.rename_back {note : AnnotationNode} (fits : note.Fits table) :
    (note.rename ⟨table, there⟩).rename ⟨table.reverse, back⟩ = note := by
  rw [rename, rename, Element.renameValues_back invertible note.values fits.values]
  exact congrArg (AnnotationNode.mk · note.values) (invertible.desc_back fits.desc)

theorem AnnotationNode.map_rename_back {notes : List AnnotationNode}
    (fit : ∀ note ∈ notes, note.Fits table) :
    (notes.map (·.rename ⟨table, there⟩)).map (·.rename ⟨table.reverse, back⟩) = notes := by
  rw [List.map_map]
  refine (List.map_congr_left fun note member => ?_).trans (List.map_id _)
  exact rename_back invertible (fit note member)

theorem MemberNode.rename_back {kind : MemberKind} {owner : String} {member : MemberNode}
    (fits : member.Fits table kind owner) :
    (member.rename ⟨table, there⟩ [] kind owner).rename ⟨table.reverse, back⟩ [] kind
      ((Renamer.mk table there).mapClass owner) = member := by
  have desc := invertible.desc_back fits.desc
  simp only [rename, Mixin.Renames.name?, Keyed.get?, Option.getD_none, Renamer.mapDesc, desc,
    invertible.mapMember_back fits.name,
    AnnotationNode.map_rename_back invertible fits.annotations]

theorem MemberNode.map_rename_back {kind : MemberKind} {owner : String}
    {members : List MemberNode} (fit : ∀ member ∈ members, member.Fits table kind owner) :
    (members.map (·.rename ⟨table, there⟩ [] kind owner)).map
      (·.rename ⟨table.reverse, back⟩ [] kind ((Renamer.mk table there).mapClass owner)) =
        members := by
  rw [List.map_map]
  refine (List.map_congr_left fun member listed => ?_).trans (List.map_id _)
  exact rename_back invertible (fit member listed)

theorem ClassNode.rename_back {node : ClassNode} (fits : node.Fits table) :
    (node.rename ⟨table, there⟩ []).rename ⟨table.reverse, back⟩ [] = node := by
  have parent (name : String) (listed : name ∈ node.superName.toList ++ node.interfaces) :
      renamed table.reverse.mapClass? (renamed table.mapClass? name) = name :=
    invertible.class_back (fits.parents name listed)
  have supers : (node.superName.map (Renamer.mk table there).mapClass).map
      (Renamer.mk table.reverse back).mapClass = node.superName := by
    cases above : node.superName with
    | none => rfl
    | some name => exact congrArg some (parent name (by simp [above]))
  have interfaces : (node.interfaces.map (Renamer.mk table there).mapClass).map
      (Renamer.mk table.reverse back).mapClass = node.interfaces := by
    rw [List.map_map]
    refine (List.map_congr_left fun name listed => ?_).trans (List.map_id _)
    exact parent name (List.mem_append_right _ listed)
  have name : (Renamer.mk table.reverse back).mapClass
      ((Renamer.mk table there).mapClass node.name) = node.name :=
    invertible.class_back fits.name
  have fields : ∀ field ∈ node.fields, field.Fits table .field node.name := fits.members .field
  have methods : ∀ method ∈ node.methods, method.Fits table .method node.name :=
    fits.members .method
  simp only [rename, name, supers, interfaces,
    AnnotationNode.map_rename_back invertible fits.annotations,
    MemberNode.map_rename_back invertible fields, MemberNode.map_rename_back invertible methods]

end Back

/-! Without mixins and side files each entry is renamed by itself. -/

/-- An entry after the renaming, a class at the path of its new name. -/
def movedEntry (renamer : Renamer) : String × Entry → String × Entry
  | (_, .classFile node) => ((node.rename renamer []).path, .classFile (node.rename renamer []))
  | (path, .text content) => (path, .text content)
  | (path, .binary bytes) => (path, .binary bytes)

theorem renameEntries_plain (renamer : Renamer) (entries : List (String × Entry)) :
    renameEntries renamer [] [] entries = (.ok (entries.map (movedEntry renamer)), []) := by
  induction entries with
  | nil => rfl
  | cons first rest ih =>
      obtain ⟨path, entry⟩ := first
      have one : renameEntry renamer [] [] path entry =
          .ok (movedEntry renamer (path, entry), []) := by
        cases entry <;> rfl
      simp only [renameEntries, one, ih]
      rfl

theorem archive_ofInputs_plain (table : RenameTable) (classpath : List Archive)
    (archive : Archive) :
    (Renaming.ofInputs table .none classpath [archive]).archive =
      .ok ⟨.ofList (archive.entries.map (movedEntry
        ⟨table, .ofNodes (([archive] ++ classpath).flatMap Archive.classes)⟩))⟩ := by
  simp only [Renaming.ofInputs, Extras.none, renameArchives, List.flatMap_singleton,
    renameEntries_plain]
  rfl

theorem movedEntry_of_class {renamer : Renamer} {pair : String × Entry} {node : ClassNode}
    (held : pair.2.class? = some node) :
    movedEntry renamer pair =
      ((node.rename renamer []).path, .classFile (node.rename renamer [])) := by
  obtain ⟨path, entry⟩ := pair
  cases entry <;> cases held
  rfl

theorem movedEntry_of_other {renamer : Renamer} {pair : String × Entry}
    (other : pair.2.class? = none) : movedEntry renamer pair = pair := by
  obtain ⟨path, entry⟩ := pair
  cases entry with
  | classFile node => cases other
  | text content => rfl
  | binary bytes => rfl

theorem pathOf_injective {left right : String}
    (same : ClassNode.pathOf left = ClassNode.pathOf right) : left = right := by
  rw [ClassNode.pathOf, ClassNode.pathOf] at same
  exact String.append_left_inj _ |>.mp same

/-- Entries that meet after the renaming are others at one path or classes with one new name,
if no other entry lies where a class goes. -/
theorem moved_meet_cases {renamer : Renamer} {archive : Archive} {left right : String × Entry}
    (others : ∀ pair ∈ archive.entries, pair.2.class? = none → ∀ node ∈ archive.classes,
      pair.1 ≠ ClassNode.pathOf (renamer.mapClass node.name))
    (leftMember : left ∈ archive.entries) (rightMember : right ∈ archive.entries)
    (meet : (movedEntry renamer left).1 = (movedEntry renamer right).1) :
    (left.2.class? = none ∧ right.2.class? = none ∧ left.1 = right.1) ∨
      ∃ node other, left.2.class? = some node ∧ right.2.class? = some other ∧
        renamer.mapClass node.name = renamer.mapClass other.name := by
  cases leftKind : left.2.class? with
  | none =>
      rw [movedEntry_of_other leftKind] at meet
      cases rightKind : right.2.class? with
      | none =>
          rw [movedEntry_of_other rightKind] at meet
          exact .inl ⟨rfl, rfl, meet⟩
      | some node =>
          rw [movedEntry_of_class rightKind] at meet
          exact absurd meet
            (others left leftMember leftKind node (Archive.mem_classes rightMember rightKind))
  | some node =>
      rw [movedEntry_of_class leftKind] at meet
      cases rightKind : right.2.class? with
      | none =>
          rw [movedEntry_of_other rightKind] at meet
          exact absurd meet.symm
            (others right rightMember rightKind node (Archive.mem_classes leftMember leftKind))
      | some other =>
          rw [movedEntry_of_class rightKind] at meet
          exact .inr ⟨node, other, rfl, rfl, pathOf_injective meet⟩

section Archive

variable {table : RenameTable} {archive : Archive} (invertible : table.Invertible)
  (fits : archive.Fits table)
include invertible fits

theorem movedEntry_back {there back : Hierarchy} {pair : String × Entry}
    (member : pair ∈ archive.entries) :
    movedEntry ⟨table.reverse, back⟩ (movedEntry ⟨table, there⟩ pair) = pair := by
  obtain ⟨path, entry⟩ := pair
  cases entry with
  | text content => rfl
  | binary bytes => rfl
  | classFile node =>
      obtain ⟨own, named⟩ := fits.classes _ member node rfl
      simp only [movedEntry, ClassNode.rename_back invertible named]
      exact congrArg (·, Entry.classFile node) own.symm

/-- Entries that meet after the renaming lay at one path before. -/
theorem fst_eq_of_moved {hierarchy : Hierarchy} {left right : String × Entry}
    (leftMember : left ∈ archive.entries) (rightMember : right ∈ archive.entries)
    (meet : (movedEntry ⟨table, hierarchy⟩ left).1 = (movedEntry ⟨table, hierarchy⟩ right).1) :
    left.1 = right.1 := by
  rcases moved_meet_cases fits.others leftMember rightMember meet with
    ⟨-, -, same⟩ | ⟨node, other, leftKind, rightKind, same⟩
  · exact same
  · obtain ⟨leftPath, leftFits⟩ := fits.classes left leftMember node leftKind
    obtain ⟨rightPath, rightFits⟩ := fits.classes right rightMember other rightKind
    have name : node.name = other.name := by
      rw [← invertible.class_back leftFits.name, ← invertible.class_back rightFits.name]
      exact congrArg (renamed table.reverse.mapClass?) same
    rw [leftPath, rightPath, ClassNode.path, ClassNode.path, name]

theorem keys_moved_nodup (hierarchy : Hierarchy) :
    (Keyed.keys (archive.entries.map (movedEntry ⟨table, hierarchy⟩))).Nodup := by
  rw [Keyed.keys, List.map_map]
  refine List.Nodup.map_on ?_ (List.Nodup.of_map _ fits.paths)
  intro left leftMember right rightMember meet
  exact List.inj_on_of_nodup_map fits.paths leftMember rightMember
    (fst_eq_of_moved invertible fits leftMember rightMember meet)

/-- Renaming with the reverse of a table gives back what the table renamed, against whatever
classpaths. -/
theorem Archive.restored_by_reverse (there back : List Archive) : ∃ renamed,
    (Renaming.ofInputs table .none there [archive]).archive = .ok renamed ∧
      (Renaming.ofInputs table.reverse .none back [renamed]).archive = .ok archive := by
  have forth := archive_ofInputs_plain table there archive
  rw [Keyed.ofList_of_nodup (keys_moved_nodup invertible fits _)] at forth
  refine ⟨_, forth, ?_⟩
  have returned (thereClasses backClasses : Hierarchy) :
      (archive.entries.map (movedEntry ⟨table, thereClasses⟩)).map
        (movedEntry ⟨table.reverse, backClasses⟩) = archive.entries := by
    rw [List.map_map]
    refine (List.map_congr_left fun pair member => ?_).trans (List.map_id _)
    exact movedEntry_back invertible fits member
  rw [archive_ofInputs_plain, returned, Keyed.ofList_of_nodup fits.paths]

end Archive

/-- Two classes of which one takes the old name of the other. -/
def shiftingTable : RenameTable :=
  ⟨"official", "named",
    [("a", ⟨"pkg/Alpha", [⟨"f", "La;", "first"⟩], [⟨"m", "(La;I)Lb;", "run"⟩]⟩),
      ("b", ⟨"a", [⟨"X", "Lb;", "RED"⟩], []⟩)]⟩

def shiftedArchive : Archive :=
  let note : AnnotationNode := ⟨"Lnote;", [("colour", .constant "Lb;" "X"),
    ("types", .array [.type "[La;", .nested "La;" [("deep", .string "La;")]])]⟩
  ⟨[("a.class", .classFile ⟨"a", 33, some "java/lang/Object", ["b"], [note],
      [⟨2, "f", "La;", [note]⟩], [⟨1, "<init>", "(La;)V", []⟩, ⟨1, "m", "(La;I)Lb;", []⟩]⟩),
    ("readme.txt", .text "La;"),
    ("b.class", .classFile ⟨"b", 33, none, [], [], [⟨9, "X", "Lb;", []⟩], []⟩)]⟩

theorem Archive.restored_by_reverse_shifted :
    shiftingTable.Invertible ∧ shiftedArchive.Fits shiftingTable ∧ ∃ renamed,
      (Renaming.ofInputs shiftingTable .none [] [shiftedArchive]).archive = .ok renamed ∧
        (Renaming.ofInputs shiftingTable.reverse .none [] [renamed]).archive =
          .ok shiftedArchive := by
  have invertible : shiftingTable.Invertible := by decide +kernel
  have fits : shiftedArchive.Fits shiftingTable := by decide +kernel
  exact ⟨invertible, fits, Archive.restored_by_reverse invertible fits [] []⟩

end ArchiveRemap
