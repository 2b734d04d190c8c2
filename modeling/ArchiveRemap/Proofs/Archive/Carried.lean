import ArchiveRemap.Proofs.Archive.Texts
import ArchiveRemap.Proofs.Mixin.Reading
import ArchiveRemap.Proofs.Mixin.Refmap
import ArchiveRemap.Proofs.Mixin.Writing

/-!
What the next hop reads of the references that a hop has written. Reading goes by the names of
the files: references in a file that is named like a reference map come back as they are, those
in any other file are not found again.
-/

namespace ArchiveRemap

open Mixin (Registry Options Hop HopState Inputs ReferenceMap Refmaps isRefmapName isConfigName)

theorem namedJson_of_isRefmapName (path : String) (named : isRefmapName (fileName path) = true) :
    NamedJson path := by
  rw [isRefmapName, Bool.and_eq_true] at named
  exact named.2

theorem namedJson_of_isConfigName (path : String) (named : isConfigName (fileName path) = true) :
    NamedJson path := by
  simp only [isConfigName, Bool.and_eq_true] at named
  exact named.1.2

theorem not_isRefmapName_of_isConfigName {name : String} (named : isConfigName name = true) :
    isRefmapName name = false := by
  simp only [isConfigName, Bool.and_eq_true, Bool.not_eq_true'] at named
  exact named.2

/-! The first of a list. -/

theorem find?_of_only {α : Type} {items : List α} {holds : α → Bool} {item : α}
    (member : item ∈ items) (here : holds item = true)
    (only : ∀ other, holds other = true → other = item) : items.find? holds = some item := by
  cases found : items.find? holds with
  | none => exact absurd here (List.find?_eq_none.mp found item member)
  | some other => rw [only other (List.find?_some found)]

theorem find?_of_first {α : Type} {items : List α} {before after : α → Bool} {item : α}
    (first : items.find? before = some item) (here : after item = true)
    (only : ∀ other, after other = true → other = item ∨ before other = true) :
    items.find? after = some item := by
  obtain ⟨held, front, back, split, earlier⟩ := List.find?_eq_some_iff_append.mp first
  refine List.find?_eq_some_iff_append.mpr ⟨here, front, back, split, fun other member => ?_⟩
  have passed := earlier other member
  rw [Bool.not_eq_true'] at passed ⊢
  refine Bool.eq_false_iff.mpr fun again => ?_
  rcases only other again with rfl | held
  · rw [passed] at held
    cases held
  · rw [passed] at held
    cases held

namespace Mixin

/-- What a hop has read from an archive and written into it. -/
structure Written (known read : Inputs) (found : Refmaps) (archive out : Archive) : Prop where
  distinct : archive.entries.keys.Nodup
  refmaps : ∃ defaultRefmap,
    (Inputs.empty defaultRefmap).readRefmaps (archive.textsNamed isRefmapName) = .ok known
  configs : (known.readConfigs (archive.textsNamed isConfigName)).1 = .ok read
  inPlace : found.InPlace read
  out : out = (archive.putTexts Json.Value.indentedText read.configs).putTexts ReferenceMap.write
    (Hop.addStale found.nonEmpty read.filledRefmaps).1.entries

namespace Written

variable {known read : Inputs} {found : Refmaps} {archive out : Archive}
  (written : Written known read found archive out)
include written

theorem nodup_out : out.entries.keys.Nodup := by
  rw [written.out]
  exact Archive.nodup_putTexts _ _ (Archive.nodup_putTexts _ _ written.distinct)

/-- What was there keeps its place in front of what is new. -/
theorem keys_out : ∃ more, out.entries.keys = archive.entries.keys ++ more := by
  obtain ⟨configs, first⟩ := Archive.keys_putTexts Json.Value.indentedText read.configs archive
  obtain ⟨more, second⟩ := Archive.keys_putTexts ReferenceMap.write
    (Hop.addStale found.nonEmpty read.filledRefmaps).1.entries
    (archive.putTexts Json.Value.indentedText read.configs)
  exact ⟨configs ++ more, by rw [written.out, second, first, List.append_assoc]⟩

/-! Texts of the archive that was written. -/

theorem writesBack : ∀ pair ∈ read.configs, Inputs.WritesBack pair := by
  obtain ⟨defaultRefmap, refmaps⟩ := written.refmaps
  refine Inputs.writesBack_readConfigs written.configs (fun text member => ?_) fun pair member => ?_
  · exact ((Archive.mem_textsNamed written.distinct).mp member).1
  · rw [Inputs.configs_readRefmaps refmaps] at member
    cases member

/-- Every text is a map that was written, a config that was written, or as it was. -/
theorem text?_out (path : String) :
    (∃ refmap, (Hop.addStale found.nonEmpty read.filledRefmaps).1.get? path = some refmap ∧
        out.text? path = some refmap.write) ∨
      (Hop.addStale found.nonEmpty read.filledRefmaps).1.get? path = none ∧
        ((∃ config, (path, config) ∈ read.configs ∧
            out.text? path = some config.indentedText) ∨
          out.text? path = archive.text? path) := by
  rw [written.out]
  cases held : (Hop.addStale found.nonEmpty read.filledRefmaps).1.get? path with
  | some refmap =>
      have member : path ∈ Keyed.keys (Hop.addStale found.nonEmpty read.filledRefmaps).1.entries :=
        List.mem_map.mpr ⟨_, Dictionary.mem_entries_iff.mpr held, rfl⟩
      obtain ⟨content, inside, text⟩ := Archive.text?_putTexts_of_mem ReferenceMap.write member
        (archive.putTexts Json.Value.indentedText read.configs)
      rw [Dictionary.mem_entries_iff, held] at inside
      cases inside
      exact .inl ⟨refmap, rfl, text⟩
  | none =>
      rw [Archive.text?_putTexts_of_absent _ (Dictionary.get?_eq_none_iff.mp held)]
      refine .inr ⟨rfl, ?_⟩
      by_cases member : path ∈ Keyed.keys read.configs
      · exact .inl (Archive.text?_putTexts_of_mem _ member archive)
      · exact .inr (Archive.text?_putTexts_of_absent _ member archive)

/-- A path named like a reference map holds a map that was written, or the text it held. -/
theorem text?_out_of_isRefmapName {path : String}
    (named : isRefmapName (fileName path) = true) :
    (∃ refmap, (Hop.addStale found.nonEmpty read.filledRefmaps).1.get? path = some refmap ∧
        out.text? path = some refmap.write) ∨
      (Hop.addStale found.nonEmpty read.filledRefmaps).1.get? path = none ∧
        out.text? path = archive.text? path := by
  rcases written.text?_out path with map | ⟨unwritten, ⟨config, member, -⟩ | same⟩
  · exact .inl map
  · rw [not_isRefmapName_of_isConfigName (written.writesBack _ member).1] at named
    cases named
  · exact .inr ⟨unwritten, same⟩

theorem refmap?_out {path : String} (named : isRefmapName (fileName path) = true) :
    out.refmap? path =
      ((Hop.addStale found.nonEmpty read.filledRefmaps).1.get? path).or
        (archive.refmap? path) := by
  rw [Archive.refmap?, Archive.refmap?, if_pos named, if_pos named]
  rcases written.text?_out_of_isRefmapName named with ⟨refmap, held, text⟩ | ⟨unwritten, same⟩
  · rw [held, text, Option.bind_some, ReferenceMap.parse?_write]
    rfl
  · rw [unwritten, same, Option.none_or]

/-! Classes of the archive that was written. -/

/-- A class is listed by its file, and by reference maps that were there before. -/
theorem listed_out {path className : String}
    (listed : shows out className path = true) :
    read.fileFor className = path ∨ shows archive className path = true := by
  rw [shows] at listed ⊢
  cases named : isRefmapName (fileName path) with
  | false =>
      rw [Archive.refmap?, if_neg (by simp [named])] at listed
      cases listed
  | true =>
      rw [written.refmap?_out named] at listed
      cases held : (Hop.addStale found.nonEmpty read.filledRefmaps).1.get? path with
      | none =>
          rw [held, Option.none_or] at listed
          exact .inr listed
      | some refmap =>
          rw [held, Option.some_or] at listed
          rcases Hop.eq_or_empty_of_addStale held with inside | rfl
          · obtain ⟨entries, class?⟩ := Option.isSome_iff_exists.mp listed
            have held : found.class? path className = some entries := by
              rw [Refmaps.class?, inside, Option.bind_some]
              exact class?
            exact .inl (written.inPlace _ _ _ held).1
          · cases listed

/-- The file of a class is the first reference map that listed it before. -/
theorem fileFor_of_first {path className : String}
    (first : archive.entries.keys.find? (shows archive className) = some path) :
    read.fileFor className = path := by
  obtain ⟨defaultRefmap, refmaps⟩ := written.refmaps
  have listed := (Inputs.readRefmaps_archive written.distinct refmaps).1 className
  rw [first] at listed
  exact Inputs.fileFor_of_classRefmaps ((Inputs.extends_readConfigs written.configs).classes listed)

/-- References that were found are in the archive when their file is named like a map. -/
theorem refmap?_of_recorded {file className : String} {entries : ClassEntries}
    (recorded : found.nonEmpty.class? file className = some entries)
    (named : isRefmapName (fileName file) = true) :
    ∃ refmap, out.refmap? file = some refmap ∧ refmap.class? className = some entries := by
  obtain ⟨refmap, inside, class?⟩ := Option.bind_eq_some_iff.mp recorded
  refine ⟨refmap, ?_, class?⟩
  rw [written.refmap?_out named, Hop.get?_addStale, inside]
  rfl

theorem fileFor_of_recorded {file className : String} {entries : ClassEntries}
    (recorded : found.nonEmpty.class? file className = some entries) :
    read.fileFor className = file ∧ entries.isEmpty = false := by
  obtain ⟨refmap, inside, class?⟩ := Option.bind_eq_some_iff.mp recorded
  rw [Refmaps.nonEmpty, Dictionary.get?_filter, Option.filter_eq_some_iff] at inside
  refine written.inPlace file className entries ?_
  rw [Refmaps.class?, inside.1, Option.bind_some, class?]

/-- The first reference map that lists the class is the one with its references. -/
theorem first_out {file className : String} {entries : ClassEntries}
    (recorded : found.nonEmpty.class? file className = some entries)
    (named : isRefmapName (fileName file) = true) :
    out.entries.keys.find? (shows out className) = some file := by
  obtain ⟨place, -⟩ := written.fileFor_of_recorded recorded
  obtain ⟨refmap, shown, class?⟩ := written.refmap?_of_recorded recorded named
  have here : shows out className file = true := by
    rw [shows, shown, Option.any_some]
    exact Option.isSome_of_eq_some class?
  obtain ⟨more, keys⟩ := written.keys_out
  cases first : archive.entries.keys.find? (shows archive className) with
  | some path =>
      have same : path = file := (written.fileFor_of_first first).symm.trans place
      subst same
      rw [keys, List.find?_append, find?_of_first first here fun other listed =>
        (written.listed_out listed).imp_left fun elsewhere => elsewhere.symm.trans place]
      rfl
  | none =>
      refine find?_of_only (of_shows here).2 here fun other listed => ?_
      rcases written.listed_out listed with elsewhere | before
      · exact elsewhere.symm.trans place
      · exact absurd before (List.find?_eq_none.mp first other (of_shows before).2)

/-- Nothing lists a class whose file is not named like a map. -/
theorem unlisted_out {file className : String} {entries : ClassEntries}
    (recorded : found.nonEmpty.class? file className = some entries)
    (named : isRefmapName (fileName file) = false) (path : String) :
    shows out className path = false := by
  obtain ⟨place, -⟩ := written.fileFor_of_recorded recorded
  refine Bool.eq_false_iff.mpr fun listed => ?_
  rcases written.listed_out listed with here | before
  · rw [← here, place] at listed
    rw [(of_shows listed).1] at named
    cases named
  · cases first : archive.entries.keys.find? (shows archive className) with
    | none => exact List.find?_eq_none.mp first path (of_shows before).2 before
    | some other =>
        have shown := List.find?_some first
        rw [← written.fileFor_of_first first, place] at shown
        rw [(of_shows shown).1] at named
        cases named

/-! Reading once more. -/

theorem isSome_refmap_out {path text : String}
    (member : (path, text) ∈ out.textsNamed isRefmapName) :
    (ReferenceMap.parse? text).isSome := by
  obtain ⟨named, shown⟩ := (Archive.mem_textsNamed written.nodup_out).mp member
  rcases written.text?_out_of_isRefmapName named with ⟨refmap, -, own⟩ | ⟨-, same⟩
  · rw [own] at shown
    cases shown
    exact Option.isSome_of_eq_some refmap.parse?_write
  · obtain ⟨defaultRefmap, refmaps⟩ := written.refmaps
    have before := (Archive.mem_textsNamed written.distinct).mpr ⟨named, same.symm.trans shown⟩
    obtain ⟨refmap, parsed, -⟩ := Inputs.get?_refmaps_of_mem refmaps
      (Archive.nodup_textsNamed written.distinct _) before
    exact Option.isSome_of_eq_some parsed

theorem isSome_config_out {path text : String}
    (member : (path, text) ∈ out.textsNamed isConfigName) :
    (Json.Value.parse? text).isSome := by
  obtain ⟨named, shown⟩ := (Archive.mem_textsNamed written.nodup_out).mp member
  rcases written.text?_out path with ⟨refmap, -, own⟩ | ⟨-, ⟨config, inside, own⟩ | same⟩
  · rw [own] at shown
    cases shown
    exact Json.Value.isSome_parse?_indentedText (refmap.fits_toJson.mono (by decide))
  · rw [own] at shown
    cases shown
    exact Json.Value.isSome_parse?_indentedText (written.writesBack _ inside).2
  · have before := (Archive.mem_textsNamed written.distinct).mpr ⟨named, same.symm.trans shown⟩
    exact (Inputs.readConfigs_ok_iff known).mp ⟨read, written.configs⟩ (path, text) before

/-- What was written can be read. -/
theorem isOk_read_out (defaultRefmap : String) :
    ∃ next, (Inputs.read defaultRefmap [out]).1 = .ok next := by
  obtain ⟨again, refmaps⟩ := Inputs.readRefmaps_of_isSome
    (fun _ member => written.isSome_refmap_out member) (.empty defaultRefmap)
  obtain ⟨next, configs⟩ := (Inputs.readConfigs_ok_iff again).mpr
    fun _ member => written.isSome_config_out member
  exact ⟨next, Inputs.read_ok_iff.mpr ⟨again, refmaps, configs⟩⟩

/-- The next hop finds the references of a class exactly when their file is named like a
reference map. -/
theorem earlier?_next {file className : String} {entries : ClassEntries}
    (recorded : found.nonEmpty.class? file className = some entries) {defaultRefmap : String}
    {next : Inputs} (reads : (Inputs.read defaultRefmap [out]).1 = .ok next) :
    next.earlier? className = if isRefmapName (fileName file) then some entries else none := by
  obtain ⟨known, refmaps, configs⟩ := Inputs.read_ok_iff.mp reads
  have more := Inputs.extends_readConfigs configs
  obtain ⟨classes, maps⟩ := Inputs.readRefmaps_archive written.nodup_out refmaps
  cases named : isRefmapName (fileName file) with
  | true =>
      obtain ⟨refmap, shown, class?⟩ := written.refmap?_of_recorded recorded named
      have listed := (classes className).trans (written.first_out recorded named)
      rw [Inputs.earlier?_of_classRefmaps (more.classes listed)
        (more.refmaps ((maps file).trans shown)), class?]
      rfl
  | false =>
      refine Inputs.earlier?_eq_none fun path refmap inside => ?_
      rcases more.fresh inside with old | rfl
      · rw [maps] at old
        have unlisted := written.unlisted_out recorded named path
        rw [shows, old, Option.any_some, ReferenceMap.lists, Dictionary.has,
          Option.isSome_eq_false_iff, Option.isNone_iff_eq_none] at unlisted
        exact unlisted
      · rfl

end Written

end Mixin

/-! The hop that wrote the archive. -/

/-- A hop that comes to an archive has read, found and written all that it takes. -/
theorem Renaming.withMixins_written {registry : Registry} {options : Options}
    {sideFiles : List SideFile} {renamer : Renamer} {input out : Archive}
    (distinct : input.entries.keys.Nodup)
    (made : (withMixins registry options sideFiles renamer [input]).archive = .ok out) :
    ∃ known read found archive, Mixin.Written known read found archive out ∧
      (Inputs.read options.defaultRefmap [input]).1 = .ok read ∧
      (withMixins registry options sideFiles renamer [input]).refmaps = found.nonEmpty := by
  unfold withMixins at made ⊢
  rcases reads : Inputs.read options.defaultRefmap [input] with ⟨fault | read, notices⟩
  · rw [reads] at made
    cases made
  · obtain ⟨known, refmaps, configs⟩ := Inputs.read_ok_iff.mp (congrArg Prod.fst reads)
    simp only [reads] at made ⊢
    have inPlace := Hop.inPlace_run ⟨registry, options, read, renamer⟩
      ([input].flatMap Archive.classes)
    generalize Hop.run _ _ = state at made inPlace ⊢
    rcases renamed : renameArchives renamer state.renames sideFiles [input] with
      ⟨fault | archive, more⟩
    · rw [renamed] at made
      cases made
    · rw [renamed] at made
      cases made
      have came := congrArg Prod.fst renamed
      refine ⟨known, read, state.refmaps, archive, ?_, rfl, rfl⟩
      constructor
      case distinct => exact nodup_renameArchives _ _ _ came
      case refmaps =>
        refine ⟨options.defaultRefmap, ?_⟩
        rw [textsNamed_renameArchives _ _ _ namedJson_of_isRefmapName distinct came]
        exact refmaps
      case configs =>
        rw [textsNamed_renameArchives _ _ _ namedJson_of_isConfigName distinct came]
        exact configs
      case inPlace => exact inPlace
      case out => rfl

/-- What a hop has written is what the next one reads. The archive of a hop can always be read
again. All references that were found for a class are in the file that the inputs name for it,
and the next hop knows them as they are when that file is named like a reference map; else it
knows none for the class. -/
theorem Renaming.references_carried (table : RenameTable) (registry : Registry)
    (options : Options) (sideFiles : List SideFile) (classpath : List Archive)
    {input out : Archive} (distinct : input.entries.keys.Nodup)
    (made : (ofInputs table ⟨some (registry, options), sideFiles⟩ classpath [input]).archive =
      .ok out) (defaultRefmap : String) :
    ∃ read next, (Inputs.read options.defaultRefmap [input]).1 = .ok read ∧
      (Inputs.read defaultRefmap [out]).1 = .ok next ∧
      ∀ file className entries,
        (ofInputs table ⟨some (registry, options), sideFiles⟩ classpath [input]).refmaps.class?
          file className = some entries →
        read.fileFor className = file ∧ entries.isEmpty = false ∧
          next.earlier? className =
            if isRefmapName (fileName file) then some entries else none := by
  obtain ⟨known, read, found, archive, written, reads, refmaps⟩ :=
    withMixins_written distinct made
  obtain ⟨next, again⟩ := written.isOk_read_out defaultRefmap
  refine ⟨read, next, reads, again, fun file className entries recorded => ?_⟩
  have recorded : found.nonEmpty.class? file className = some entries := by
    rw [← refmaps]
    exact recorded
  obtain ⟨place, filled⟩ := written.fileFor_of_recorded recorded
  exact ⟨place, filled, written.earlier?_next recorded again⟩

/-- A class and a mixin for it, with a config that names the file of its references. -/
def configuredPair (refmap : String) : Archive :=
  ⟨[("a.class", .classFile ⟨"a", 0, none, [], [], [], []⟩),
    ("m/M.class", .classFile
      ⟨"m/M", 0, none, [], [⟨"Lorg/spongepowered/asm/mixin/Mixin;",
        [("targets", .array [.string "a"])]⟩], [], []⟩),
    ("m.mixins.json", .text ("\x7b\"package\": \"m\", \"refmap\": \"" ++ refmap ++
      "\", \"mixins\": [\"M\"]\x7d"))]⟩

/-- The hop that renames the target of the mixin. -/
def configuredHop (refmap : String) : Renaming :=
  .ofInputs ((RenameTable.empty "official" "named").insertClass "a" "A")
    ⟨some (.standard true, .standard), []⟩ [] [configuredPair refmap]

theorem Renaming.references_carried_named : ∃ out next,
    (configuredHop "m-refmap.json").archive = .ok out ∧
      (Inputs.read "unknown-refmap.json" [out]).1 = .ok next ∧
      next.earlier? "m/M" = some (.ofList [("a", "A")]) := by
  have comes : (configuredHop "m-refmap.json").archive.isOk = true := by decide +kernel
  cases made : (configuredHop "m-refmap.json").archive with
  | error fault =>
      rw [made] at comes
      cases comes
  | ok out =>
      obtain ⟨read, next, -, again, carried⟩ :=
        references_carried _ _ _ _ _ (by decide) made "unknown-refmap.json"
      have recorded : (configuredHop "m-refmap.json").refmaps.class? "m-refmap.json" "m/M" =
          some (.ofList [("a", "A")]) := by decide +kernel
      obtain ⟨-, -, known⟩ := carried _ _ _ recorded
      rw [if_pos (by decide +kernel)] at known
      exact ⟨out, next, rfl, again, known⟩

/-- References in a file of another name are written, and not found again. -/
theorem Renaming.references_lost_elsewhere :
    (configuredHop "maps.json").refmaps.class? "maps.json" "m/M" =
        some (.ofList [("a", "A")]) ∧
      ((configuredHop "maps.json").archive.toOption.map fun out =>
        ((Inputs.read "unknown-refmap.json" [out]).1.toOption.map (·.earlier? "m/M"))) =
          some (some none) := by
  constructor <;> decide +kernel

end ArchiveRemap
