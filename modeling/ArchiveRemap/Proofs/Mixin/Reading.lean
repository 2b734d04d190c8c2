import Mathlib.Data.List.Basic
import ArchiveRemap.Mixin.Inputs
import ArchiveRemap.Proofs.Json.Taken

/-!
What is read from the mixin files of an archive. Every class belongs to the first reference
map that lists it; configs come after the reference maps and change nothing about them, apart
from naming files that hold no references yet.
-/

namespace ArchiveRemap

/-- The texts of some name, path by path. -/
theorem Archive.textsNamed_eq_filterMap {archive : Archive}
    (distinct : archive.entries.keys.Nodup) (accepts : String → Bool) :
    archive.textsNamed accepts = archive.entries.keys.filterMap fun path =>
      if accepts (fileName path) then (archive.text? path).map fun content => (path, content)
      else none := by
  rw [textsNamed, Keyed.keys, List.filterMap_map]
  refine List.filterMap_congr fun pair member => ?_
  obtain ⟨path, entry⟩ := pair
  simp only [Function.comp_apply, text?, Keyed.get?_of_mem distinct member, Option.bind_some]

theorem Archive.mem_textsNamed {archive : Archive} (distinct : archive.entries.keys.Nodup)
    {accepts : String → Bool} {path content : String} :
    (path, content) ∈ archive.textsNamed accepts ↔
      accepts (fileName path) = true ∧ archive.text? path = some content := by
  rw [textsNamed_eq_filterMap distinct, List.mem_filterMap]
  constructor
  case mp =>
    rintro ⟨key, -, found⟩
    split at found
    · obtain ⟨text, known, same⟩ := Option.map_eq_some_iff.mp found
      cases same
      exact ⟨‹_›, known⟩
    · cases found
  case mpr =>
    rintro ⟨accepted, found⟩
    obtain ⟨entry, known, -⟩ := Option.bind_eq_some_iff.mp found
    refine ⟨path, List.mem_map.mpr ⟨_, Keyed.mem_of_get? known, rfl⟩, ?_⟩
    rw [if_pos accepted, found]
    rfl

theorem Archive.nodup_textsNamed {archive : Archive} (distinct : archive.entries.keys.Nodup)
    (accepts : String → Bool) : (Keyed.keys (archive.textsNamed accepts)).Nodup := by
  rw [textsNamed]
  refine distinct.sublist (Keyed.keys_filterMap_sublist ?_ archive.entries)
  rintro ⟨path, entry⟩ pair found
  dsimp only at found
  split at found
  · obtain ⟨text, -, rfl⟩ := Option.map_eq_some_iff.mp found
    rfl
  · cases found

/-- The reference map that an archive shows at a path. -/
def Archive.refmap? (archive : Archive) (path : String) : Option Mixin.ReferenceMap :=
  if Mixin.isRefmapName (fileName path) then
    (archive.text? path).bind Mixin.ReferenceMap.parse?
  else none

theorem Archive.of_refmap? {archive : Archive} {path : String} {refmap : Mixin.ReferenceMap}
    (shown : archive.refmap? path = some refmap) :
    Mixin.isRefmapName (fileName path) = true ∧ path ∈ archive.entries.keys := by
  rw [refmap?] at shown
  split at shown
  · obtain ⟨text, known, -⟩ := Option.bind_eq_some_iff.mp shown
    obtain ⟨entry, inside, -⟩ := Option.bind_eq_some_iff.mp known
    exact ⟨‹_›, List.mem_map.mpr ⟨_, Keyed.mem_of_get? inside, rfl⟩⟩
  · cases shown

namespace Mixin

/-- Whether a reference map lists a class, be it without references. -/
def ReferenceMap.lists (refmap : ReferenceMap) (className : String) : Bool :=
  refmap.mappings.has className

/-- Whether an archive shows a reference map that lists a class at a path. -/
def shows (archive : Archive) (className path : String) : Bool :=
  (archive.refmap? path).any (·.lists className)

theorem of_shows {archive : Archive} {className path : String}
    (shown : shows archive className path = true) :
    isRefmapName (fileName path) = true ∧ path ∈ archive.entries.keys := by
  obtain ⟨refmap, found, -⟩ := (Option.any_eq_true _ _).mp shown
  exact Archive.of_refmap? found

namespace Inputs

/-! Reference maps. -/

theorem get?_foldl_putNew (names : List String) (path : String) (files : Keyed String String)
    (name : String) :
    (names.foldl (fun done className => done.putNew className path) files).get? name =
      (files.get? name).or (if name ∈ names then some path else none) := by
  induction names generalizing files with
  | nil => simp
  | cons first rest ih =>
      rw [List.foldl_cons, ih, Keyed.get?_putNew]
      by_cases hit : first = name
      · cases files.get? name <;> simp [hit]
      · simp [hit, Ne.symm hit]

theorem get?_takeRefmap (inputs : Inputs) (path : String) (refmap : ReferenceMap)
    (className : String) :
    (inputs.takeRefmap path refmap).classRefmaps.get? className =
      (inputs.classRefmaps.get? className).or
        (if refmap.lists className then some path else none) := by
  have listed : className ∈ refmap.mappings.keys ↔ refmap.lists className = true := by
    rw [ReferenceMap.lists, Dictionary.has, Option.isSome_iff_ne_none, ne_eq,
      Dictionary.get?_eq_none_iff, Decidable.not_not]
  rw [takeRefmap, get?_foldl_putNew]
  simp only [listed]

theorem readRefmaps_cons {inputs result : Inputs} {path text : String}
    {rest : List (String × String)}
    (read : inputs.readRefmaps ((path, text) :: rest) = .ok result) :
    ∃ refmap, ReferenceMap.parse? text = some refmap ∧
      (inputs.takeRefmap path refmap).readRefmaps rest = .ok result := by
  rw [readRefmaps] at read
  split at read
  · exact ⟨_, ‹_›, read⟩
  · cases read

/-- A class belongs to the first reference map that lists it. -/
theorem get?_classRefmaps {inputs result : Inputs} {texts : List (String × String)}
    (read : inputs.readRefmaps texts = .ok result) (className : String) :
    result.classRefmaps.get? className =
      (inputs.classRefmaps.get? className).or ((texts.find? fun (_, text) =>
        (ReferenceMap.parse? text).any (·.lists className)).map Prod.fst) := by
  induction texts generalizing inputs with
  | nil =>
      cases read
      simp
  | cons first rest ih =>
      obtain ⟨refmap, parsed, read⟩ := readRefmaps_cons read
      rw [ih read, get?_takeRefmap, List.find?_cons]
      cases listed : refmap.lists className with
      | true => simp [parsed, listed]
      | false => simp [parsed, listed]

theorem get?_refmaps_of_absent {inputs result : Inputs} {texts : List (String × String)}
    (read : inputs.readRefmaps texts = .ok result) {path : String}
    (absent : path ∉ Keyed.keys texts) :
    result.refmaps.get? path = inputs.refmaps.get? path := by
  induction texts generalizing inputs with
  | nil =>
      cases read
      rfl
  | cons first rest ih =>
      obtain ⟨refmap, -, read⟩ := readRefmaps_cons read
      obtain ⟨other, absent⟩ := not_or.mp (mt List.mem_cons.mpr absent)
      rw [ih read absent, takeRefmap, Keyed.get?_put, if_neg (Ne.symm other)]

theorem get?_refmaps_of_mem {inputs result : Inputs} {texts : List (String × String)}
    (read : inputs.readRefmaps texts = .ok result) (distinct : (Keyed.keys texts).Nodup)
    {path text : String} (member : (path, text) ∈ texts) :
    ∃ refmap, ReferenceMap.parse? text = some refmap ∧
      result.refmaps.get? path = some refmap := by
  induction texts generalizing inputs with
  | nil => cases member
  | cons first rest ih =>
      obtain ⟨refmap, parsed, read⟩ := readRefmaps_cons read
      obtain ⟨fresh, others⟩ := List.nodup_cons.mp distinct
      rcases List.mem_cons.mp member with same | later
      · cases same
        refine ⟨refmap, parsed, ?_⟩
        rw [get?_refmaps_of_absent read fresh, takeRefmap, Keyed.get?_put, if_pos rfl]
      · exact ih read others later

theorem configs_readRefmaps {inputs result : Inputs} {texts : List (String × String)}
    (read : inputs.readRefmaps texts = .ok result) : result.configs = inputs.configs := by
  induction texts generalizing inputs with
  | nil =>
      cases read
      rfl
  | cons first rest ih =>
      obtain ⟨refmap, -, read⟩ := readRefmaps_cons read
      exact (ih read).trans rfl

/-- Reading succeeds when every text can be parsed. -/
theorem readRefmaps_of_isSome {texts : List (String × String)}
    (each : ∀ text ∈ texts, (ReferenceMap.parse? text.2).isSome) (inputs : Inputs) :
    ∃ result, inputs.readRefmaps texts = .ok result := by
  induction texts generalizing inputs with
  | nil => exact ⟨inputs, rfl⟩
  | cons first rest ih =>
      obtain ⟨parses, others⟩ := List.forall_mem_cons.mp each
      obtain ⟨refmap, parsed⟩ := Option.isSome_iff_exists.mp parses
      rw [readRefmaps, parsed]
      exact ih others _

/-- The reference maps of an archive, by class and by path. -/
theorem readRefmaps_archive {archive : Archive} (distinct : archive.entries.keys.Nodup)
    {defaultRefmap : String} {result : Inputs}
    (read : (empty defaultRefmap).readRefmaps (archive.textsNamed isRefmapName) = .ok result) :
    (∀ className, result.classRefmaps.get? className =
      archive.entries.keys.find? (shows archive className)) ∧
    ∀ path, result.refmaps.get? path = archive.refmap? path := by
  constructor
  · intro className
    rw [get?_classRefmaps read, Archive.textsNamed_eq_filterMap distinct,
      List.find?_filterMap]
    -- The first text that lists the class is at the first path that shows it.
    have shown : (fun path : String => Option.any (fun (_, text) =>
        (ReferenceMap.parse? text).any (·.lists className))
          (if isRefmapName (fileName path) then
            (archive.text? path).map fun content => (path, content) else none)) =
        shows archive className := by
      funext path
      rw [shows, Archive.refmap?]
      split
      · cases archive.text? path <;> rfl
      · rfl
    rw [shown]
    cases found : archive.entries.keys.find? (shows archive className) with
    | none => rfl
    | some path =>
        have lists := List.find?_some found
        rw [shows, Archive.refmap?] at lists
        split at lists
        · rename_i named
          cases known : archive.text? path with
          | none => simp [known] at lists
          | some content => simp [Inputs.empty, Keyed.get?, named, known]
        · cases lists
  · intro path
    by_cases listed : path ∈ Keyed.keys (archive.textsNamed isRefmapName)
    · obtain ⟨⟨_, text⟩, member, rfl⟩ := List.mem_map.mp listed
      obtain ⟨named, known⟩ := (Archive.mem_textsNamed distinct).mp member
      obtain ⟨refmap, parsed, found⟩ :=
        get?_refmaps_of_mem read (Archive.nodup_textsNamed distinct _) member
      rw [found, Archive.refmap?, if_pos named, known, Option.bind_some, parsed]
    · rw [get?_refmaps_of_absent read listed, Archive.refmap?]
      split
      · rename_i named
        cases known : archive.text? path with
        | none => rfl
        | some content =>
            exact absurd (List.mem_map.mpr
              ⟨_, (Archive.mem_textsNamed distinct).mpr ⟨named, known⟩, rfl⟩) listed
      · rfl

/-! Configs. -/

/-- What configs add to the reference maps: files for classes that have none, and empty maps
at files that have none. -/
structure Extends (inputs result : Inputs) : Prop where
  classes : ∀ {className file}, inputs.classRefmaps.get? className = some file →
    result.classRefmaps.get? className = some file
  refmaps : ∀ {file refmap}, inputs.refmaps.get? file = some refmap →
    result.refmaps.get? file = some refmap
  fresh : ∀ {file refmap}, result.refmaps.get? file = some refmap →
    inputs.refmaps.get? file = some refmap ∨ refmap = .empty

theorem Extends.refl (inputs : Inputs) : inputs.Extends inputs := ⟨id, id, .inl⟩

theorem Extends.trans {first second third : Inputs} (left : first.Extends second)
    (right : second.Extends third) : first.Extends third where
  classes found := right.classes (left.classes found)
  refmaps found := right.refmaps (left.refmaps found)
  fresh found := (right.fresh found).elim left.fresh .inr

theorem extends_assignClass (refmap : String) (inputs : Inputs) (className : String) :
    inputs.Extends (inputs.assignClass refmap className).1 := by
  rw [assignClass]
  cases known : inputs.classRefmaps.get? className with
  | some existing => exact .refl inputs
  | none =>
      refine ⟨fun {other file} found => ?_, id, .inl⟩
      have different : className ≠ other := by
        rintro rfl
        rw [known] at found
        cases found
      rw [Keyed.get?_put, if_neg different]
      exact found

theorem extends_assignClasses (refmap : String) (inputs : Inputs) (classNames : List String) :
    inputs.Extends (inputs.assignClasses refmap classNames).1 := by
  induction classNames generalizing inputs with
  | nil => exact .refl inputs
  | cons className rest ih => exact (extends_assignClass refmap inputs className).trans (ih _)

theorem configs_assignClasses (refmap : String) (inputs : Inputs) (classNames : List String) :
    (inputs.assignClasses refmap classNames).1.configs = inputs.configs := by
  induction classNames generalizing inputs with
  | nil => rfl
  | cons className rest ih =>
      have first : (inputs.assignClass refmap className).1.configs = inputs.configs := by
        rw [assignClass]
        split <;> rfl
      exact (ih _).trans first

theorem extends_takeConfig (inputs : Inputs) (path : String) (config : Json.Value) :
    inputs.Extends (inputs.takeConfig path config).1 := by
  unfold takeConfig
  split
  · refine (extends_assignClasses _ inputs _).trans ⟨id, fun found => ?_, fun found => ?_⟩
    · rw [Keyed.get?_putNew, found]
      rfl
    · rw [Keyed.get?_putNew, Option.or_eq_some_iff] at found
      rcases found with old | ⟨-, new⟩
      · exact .inl old
      · split at new
        · exact .inr (Option.some.inj new).symm
        · cases new
  · exact .refl inputs

/-- A config as it is written back. -/
def WritesBack (pair : String × Json.Value) : Prop :=
  isConfigName (fileName pair.1) = true ∧ pair.2.Fits Json.maxDepth

theorem writesBack_takeConfig {inputs : Inputs} {path : String} {config : Json.Value}
    (named : isConfigName (fileName path) = true) (fits : config.Fits Json.maxDepth)
    (known : ∀ pair ∈ inputs.configs, WritesBack pair) :
    ∀ pair ∈ (inputs.takeConfig path config).1.configs, WritesBack pair := by
  intro pair member
  unfold takeConfig at member
  split at member
  · dsimp only at member
    rw [configs_assignClasses] at member
    rcases Keyed.mem_put member with rfl | old
    · exact ⟨named, Json.Value.fits_insertSorted fits _ _⟩
    · exact known pair old
  · exact known pair member

theorem readConfigs_cons {inputs result : Inputs} {path text : String}
    {rest : List (String × String)}
    (read : (inputs.readConfigs ((path, text) :: rest)).1 = .ok result) :
    ∃ config, Json.Value.parse? text = some config ∧
      ((inputs.takeConfig path config).1.readConfigs rest).1 = .ok result := by
  rw [readConfigs] at read
  split at read
  · cases read
  · exact ⟨_, ‹_›, read⟩

theorem extends_readConfigs {inputs result : Inputs} {texts : List (String × String)}
    (read : (inputs.readConfigs texts).1 = .ok result) : inputs.Extends result := by
  induction texts generalizing inputs with
  | nil =>
      cases read
      exact .refl _
  | cons first rest ih =>
      obtain ⟨config, -, read⟩ := readConfigs_cons read
      exact (extends_takeConfig inputs _ config).trans (ih read)

theorem writesBack_readConfigs {inputs result : Inputs} {texts : List (String × String)}
    (read : (inputs.readConfigs texts).1 = .ok result)
    (named : ∀ text ∈ texts, isConfigName (fileName text.1) = true)
    (known : ∀ pair ∈ inputs.configs, WritesBack pair) :
    ∀ pair ∈ result.configs, WritesBack pair := by
  induction texts generalizing inputs with
  | nil =>
      cases read
      exact known
  | cons first rest ih =>
      obtain ⟨config, parsed, read⟩ := readConfigs_cons read
      obtain ⟨name, others⟩ := List.forall_mem_cons.mp named
      exact ih read others
        (writesBack_takeConfig name (Json.Value.fits_of_parse? parsed) known)

/-- Configs are read when each of them can be parsed. -/
theorem readConfigs_ok_iff (inputs : Inputs) {texts : List (String × String)} :
    (∃ result, (inputs.readConfigs texts).1 = .ok result) ↔
      ∀ text ∈ texts, (Json.Value.parse? text.2).isSome := by
  induction texts generalizing inputs with
  | nil => exact ⟨fun _ => nofun, fun _ => ⟨_, rfl⟩⟩
  | cons first rest ih =>
      constructor
      case mp =>
        intro ⟨result, read⟩
        obtain ⟨config, parsed, read⟩ := readConfigs_cons read
        exact List.forall_mem_cons.mpr
          ⟨Option.isSome_of_eq_some parsed, (ih _).mp ⟨result, read⟩⟩
      case mpr =>
        intro each
        obtain ⟨parses, others⟩ := List.forall_mem_cons.mp each
        obtain ⟨config, parsed⟩ := Option.isSome_iff_exists.mp parses
        rw [readConfigs, parsed]
        exact (ih _).mpr others

/-! Both kinds of files. -/

theorem read_ok_iff {defaultRefmap : String} {archive : Archive} {result : Inputs} :
    (read defaultRefmap [archive]).1 = .ok result ↔
      ∃ known, (empty defaultRefmap).readRefmaps (archive.textsNamed isRefmapName) = .ok known ∧
        (known.readConfigs (archive.textsNamed isConfigName)).1 = .ok result := by
  simp only [read, List.flatMap_cons, List.flatMap_nil, List.append_nil]
  split
  · rename_i known refmaps
    simp only [refmaps, Except.ok.injEq, exists_eq_left']
  · rename_i fault refmaps
    simp only [refmaps, reduceCtorEq, false_and, exists_false]

theorem fileFor_of_classRefmaps {inputs : Inputs} {className file : String}
    (listed : inputs.classRefmaps.get? className = some file) :
    inputs.fileFor className = file := by
  rw [fileFor, listed]

theorem earlier?_of_classRefmaps {inputs : Inputs} {className file : String}
    {refmap : ReferenceMap} (listed : inputs.classRefmaps.get? className = some file)
    (known : inputs.refmaps.get? file = some refmap) :
    inputs.earlier? className = refmap.class? className := by
  simp only [earlier?, listed, known, Option.bind_eq_bind, Option.bind_some]

/-- No references come from maps that do not list the class. -/
theorem earlier?_eq_none {inputs : Inputs} {className : String}
    (unlisted : ∀ file refmap, inputs.refmaps.get? file = some refmap →
      refmap.class? className = none) : inputs.earlier? className = none := by
  rw [earlier?, Option.bind_eq_bind, Option.bind_eq_none_iff]
  intro file _
  rw [Option.bind_eq_bind, Option.bind_eq_none_iff]
  exact fun refmap known => unlisted file refmap known

end Inputs

end Mixin

end ArchiveRemap
