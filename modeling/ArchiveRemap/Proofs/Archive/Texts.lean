import ArchiveRemap.Proofs.Archive.Order

/-!
Texts that a hop leaves alone. Whatever the table says, classes come to lie at paths of their
own, and no kind of side file takes a name that ends like those of the mixin files; so these
texts stay as they are, in their order.
-/

namespace ArchiveRemap

open Mixin (Renames)

/-! Names of files. -/

theorem Text.getLast?_of_endsWith {tail text : List Char} (nonempty : tail ≠ [])
    (ends : Text.endsWith tail text = true) : text.getLast? = tail.getLast? := by
  obtain ⟨front, rfl⟩ := endsWith_iff.mp ends
  exact List.getLast?_append_of_ne_nil front nonempty

theorem getLast?_fileName {path : String} {last : Char}
    (ends : (fileName path).toList.getLast? = some last) : path.toList.getLast? = some last := by
  unfold fileName at ends
  split at ends
  · rename_i before name found
    rw [String.toList_ofList] at ends
    obtain ⟨⟨after, front⟩, cut, same⟩ := Option.map_eq_some_iff.mp found
    cases same
    have whole := congrArg List.reverse (Text.eq_of_cut cut)
    rw [List.reverse_reverse, List.reverse_append, List.reverse_cons] at whole
    rw [whole, List.getLast?_append, ends]
    rfl
  · exact ends

/-- The files that the work on mixins reads. -/
def NamedJson (path : String) : Prop :=
  Text.endsWith ".json".toList (fileName path).toList = true

theorem NamedJson.getLast? {path : String} (named : NamedJson path) :
    (fileName path).toList.getLast? = some 'n' :=
  Text.getLast?_of_endsWith (by decide) named

theorem not_namedJson_pathOf (name : String) : ¬ NamedJson (ClassNode.pathOf name) := by
  intro named
  have last := getLast?_fileName named.getLast?
  have own : ".class".toList.getLast? = some 's' := by decide
  rw [ClassNode.pathOf, String.toList_append, List.getLast?_append, own] at last
  cases last

theorem SideFile.not_accepts {path : String} (named : NamedJson path) (kind : SideFile) :
    kind.accepts path = false := by
  have last := named.getLast?
  have other {tail : List Char} (nonempty : tail ≠ []) (apart : tail.getLast? ≠ some 'n') :
      Text.endsWith tail (fileName path).toList = false := by
    refine Bool.eq_false_iff.mpr fun ends => apart ?_
    rw [← Text.getLast?_of_endsWith nonempty ends, last]
  cases kind with
  | widener ignoreMismatch =>
      rw [accepts, Widener.accepts, Bool.or_eq_false_iff]
      exact ⟨other (by decide) (by decide), other (by decide) (by decide)⟩
  | transformer =>
      rw [accepts, Transformer.accepts, Bool.or_eq_false_iff, decide_eq_false_iff_not]
      refine ⟨fun same => ?_, other (by decide) (by decide)⟩
      rw [same] at last
      exact absurd last (by decide)

/-! Texts that a hop does not touch. -/

/-- The text of an entry, with its path. -/
def textAt? (pair : String × Entry) : Option (String × String) :=
  pair.2.text?.map fun content => (pair.1, content)

theorem Archive.textsNamed_eq_filter (archive : Archive) (accepts : String → Bool) :
    archive.textsNamed accepts =
      (archive.entries.filter fun (path, _) => accepts (fileName path)).filterMap textAt? := by
  rw [List.filterMap_filter]
  rfl

section

variable (renamer : Renamer) (renames : Renames) (sideFiles : List SideFile)

theorem landed?_of_text {path : String} (named : NamedJson path) (content : String) :
    landed? renamer renames sideFiles (path, .text content) = some (path, .text content) := by
  have refused : sideFiles.find? (fun kind => kind.accepts path) = none :=
    List.find?_eq_none.mpr fun kind _ => by simp [SideFile.not_accepts named kind]
  simp [landed?, renameEntry, refused]

/-- Nothing else comes to lie at a path that is named so. -/
theorem eq_of_landed? {pair moved : String × Entry}
    (found : landed? renamer renames sideFiles pair = some moved) (named : NamedJson moved.1) :
    moved.1 = pair.1 := by
  have place := landing_of_landed? renamer renames sideFiles found
  obtain ⟨path, entry⟩ := pair
  cases entry with
  | classFile node =>
      rw [place, landing] at named
      exact absurd named (not_namedJson_pathOf _)
  | text content => exact place
  | binary bytes => exact place

/-- The landed entries of accepted names keep their order. -/
theorem keys_accepted_sublist {accepts : String → Bool}
    (json : ∀ path, accepts (fileName path) = true → NamedJson path)
    (entries : List (String × Entry)) :
    (Keyed.keys ((entries.filterMap (landed? renamer renames sideFiles)).filter
      fun (path, _) => accepts (fileName path))).Sublist (Keyed.keys entries) := by
  rw [List.filter_filterMap]
  refine Keyed.keys_filterMap_sublist (fun pair moved chosen => ?_) entries
  obtain ⟨found, accepted⟩ := Option.filter_eq_some_iff.mp chosen
  exact eq_of_landed? renamer renames sideFiles found (json _ accepted)

theorem texts_accepted {accepts : String → Bool}
    (json : ∀ path, accepts (fileName path) = true → NamedJson path)
    (entries : List (String × Entry)) :
    ((entries.filterMap (landed? renamer renames sideFiles)).filter
      fun (path, _) => accepts (fileName path)).filterMap textAt? =
        (entries.filter fun (path, _) => accepts (fileName path)).filterMap textAt? := by
  rw [List.filter_filterMap, List.filterMap_filterMap, List.filterMap_filter]
  refine List.filterMap_congr fun (path, entry) _ => ?_
  cases entry with
  | classFile node =>
      simp only [landed?, renameEntry, Option.filter_some]
      split <;> split <;> rfl
  | binary bytes =>
      simp only [landed?, renameEntry, Option.filter_some]
      split <;> rfl
  | text content =>
      cases accepted : accepts (fileName path) with
      | true =>
          simp only [landed?_of_text _ _ _ (json path accepted), Option.filter_some, accepted,
            if_true, Option.bind_some]
      | false =>
          cases found : landed? renamer renames sideFiles (path, .text content) with
          | none => simp [accepted]
          | some moved =>
              have place : moved.1 = path := landing_of_landed? _ _ _ found
              simp [Option.filter_some, place, accepted]

/-- An archive that comes out holds the entries that came out, by their paths. -/
theorem entries_of_renameArchives {inputs : List Archive} {archive : Archive}
    (renamed : (renameArchives renamer renames sideFiles inputs).1 = .ok archive) :
    ∃ moved, (renameEntries renamer renames sideFiles (inputs.flatMap Archive.entries)).1 =
        .ok moved ∧ archive.entries = Keyed.ofList moved := by
  simp only [renameArchives] at renamed
  cases entries : (renameEntries renamer renames sideFiles (inputs.flatMap Archive.entries)).1 with
  | error fault =>
      rw [entries] at renamed
      cases renamed
  | ok moved =>
      rw [entries] at renamed
      cases renamed
      exact ⟨moved, rfl, rfl⟩

theorem nodup_renameArchives {inputs : List Archive} {archive : Archive}
    (renamed : (renameArchives renamer renames sideFiles inputs).1 = .ok archive) :
    archive.entries.keys.Nodup := by
  obtain ⟨moved, -, held⟩ := entries_of_renameArchives renamer renames sideFiles renamed
  rw [held]
  exact Keyed.keys_ofList_nodup moved

/-- Renaming an archive keeps the texts that are named so, and their order. -/
theorem textsNamed_renameArchives {accepts : String → Bool}
    (json : ∀ path, accepts (fileName path) = true → NamedJson path) {input archive : Archive}
    (distinct : input.entries.keys.Nodup)
    (renamed : (renameArchives renamer renames sideFiles [input]).1 = .ok archive) :
    archive.textsNamed accepts = input.textsNamed accepts := by
  obtain ⟨moved, entries, held⟩ := entries_of_renameArchives renamer renames sideFiles renamed
  rw [List.flatMap_cons, List.flatMap_nil, List.append_nil] at entries
  have apart := keys_accepted_sublist renamer renames sideFiles json input.entries
  rw [Archive.textsNamed_eq_filter, Archive.textsNamed_eq_filter, held,
    eq_landed_of_renameEntries renamer renames sideFiles entries,
    Keyed.filter_ofList (fun path => accepts (fileName path)),
    Keyed.ofList_of_nodup (distinct.sublist apart)]
  exact texts_accepted renamer renames sideFiles json input.entries

end

end ArchiveRemap
