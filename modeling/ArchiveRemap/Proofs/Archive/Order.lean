import ArchiveRemap.Archive.Renaming
import ArchiveRemap.Proofs.Mixin.Order

/-!
Archives whose classes come in another order. A hop over them does the same work on mixins,
renames every class in the same way and tells the same notices. Texts are read and renamed
one after the other, so their order is kept.
-/

namespace ArchiveRemap

open Mixin (Renames Registry Options Hop HopState)

/-! Entries renamed by renamers that differ in the order of their classes. -/

variable {left right : Renamer}

namespace Element

theorem renameConstant_congr (alike : left.Alike right) :
    renameConstant left = renameConstant right := by
  funext desc value
  simp only [renameConstant, alike.mapMember]

mutual

theorem rename_congr (alike : left.Alike right) :
    (element : Element) → element.rename left = element.rename right
  | .type _ => by simp only [rename, alike.mapDesc]
  | .constant _ _ => by simp only [rename, alike.mapDesc, renameConstant_congr alike]
  | .array items => by simp only [rename, renameItems_congr alike items]
  | .nested _ values => by simp only [rename, alike.mapDesc, renameValues_congr alike values]
  | .bool _ => by simp only [rename]
  | .int _ => by simp only [rename]
  | .string _ => by simp only [rename]

theorem renameItems_congr (alike : left.Alike right) :
    (items : List Element) → renameItems left items = renameItems right items
  | [] => rfl
  | item :: rest => by
      simp only [renameItems, rename_congr alike item, renameItems_congr alike rest]

theorem renameValues_congr (alike : left.Alike right) :
    (values : List (String × Element)) → renameValues left values = renameValues right values
  | [] => rfl
  | (_, item) :: rest => by
      simp only [renameValues, rename_congr alike item, renameValues_congr alike rest]

end

end Element

section

variable (alike : left.Alike right)
include alike

theorem AnnotationNode.rename_congr (note : AnnotationNode) :
    note.rename left = note.rename right := by
  simp only [rename, alike.mapDesc, Element.renameValues_congr alike]

theorem MemberNode.rename_congr (renames : Renames) (kind : MemberKind) (owner : String)
    (member : MemberNode) :
    member.rename left renames kind owner = member.rename right renames kind owner := by
  simp only [rename, alike.mapDesc, alike.mapMember, AnnotationNode.rename_congr alike]

theorem ClassNode.rename_congr (renames : Renames) (node : ClassNode) :
    node.rename left renames = node.rename right renames := by
  simp only [rename, alike.mapClass, AnnotationNode.rename_congr alike,
    MemberNode.rename_congr alike]

/-! Side files. -/

namespace Widener

theorem renameEntryWords_congr : renameEntryWords left = renameEntryWords right := by
  funext words
  unfold renameEntryWords
  simp only [alike.mapClass, alike.mapDesc, alike.mapMember]

theorem renameEntryLines_congr (number : Nat) (lines : List (List Char)) :
    renameEntryLines left number lines = renameEntryLines right number lines := by
  induction lines generalizing number with
  | nil => rfl
  | cons line rest ih => simp only [renameEntryLines, renameEntryWords_congr alike, ih]

theorem renameAllLines_congr (number : Nat) (lines : List (List Char)) :
    renameAllLines left number lines = renameAllLines right number lines := by
  induction lines generalizing number with
  | nil => rfl
  | cons line rest ih =>
      simp only [renameAllLines, renameEntryLines_congr alike, alike.table, ih]

theorem transform_congr (ignoreMismatch : Bool) (path text : String) :
    transform ignoreMismatch path text left = transform ignoreMismatch path text right := by
  simp only [transform, renameAllLines_congr alike, alike.table]

end Widener

namespace Transformer

theorem transform_congr (text : String) : transform text left = transform text right := by
  have members : renameMember left = renameMember right := by
    funext owner member
    simp only [renameMember, alike.mapDesc, alike.mapMember, alike.table]
  have words : renameWords left = renameWords right := by
    funext line
    cases line with
    | nil => rfl
    | cons access rest =>
        cases rest <;> simp only [renameWords, members, alike.mapClass]
  have lines : renameLine left = renameLine right := by
    funext line
    simp only [renameLine, words]
  simp only [transform, lines]

end Transformer

theorem renameEntry_congr : renameEntry left = renameEntry right := by
  funext renames sideFiles path entry
  have texts (kind : SideFile) (content : String) :
      kind.transform path content left = kind.transform path content right := by
    cases kind <;>
      simp only [SideFile.transform, Widener.transform_congr alike,
        Transformer.transform_congr alike]
  cases entry <;> simp only [renameEntry, ClassNode.rename_congr alike, texts]

theorem renameEntries_congr (renames : Renames) (sideFiles : List SideFile)
    (entries : List (String × Entry)) :
    renameEntries left renames sideFiles entries =
      renameEntries right renames sideFiles entries := by
  induction entries with
  | nil => rfl
  | cons entry rest ih => simp only [renameEntries, renameEntry_congr alike, ih]

end

/-! Entries in another order. -/

/-- The texts of an archive, in their order. -/
def Archive.texts (archive : Archive) : List (String × Entry) :=
  archive.entries.filter fun (_, entry) => entry.text?.isSome

theorem Archive.textsNamed_eq (archive : Archive) (accepts : String → Bool) :
    archive.textsNamed accepts = archive.texts.filterMap fun (path, entry) =>
      if accepts (fileName path) then entry.text?.map fun content => (path, content)
      else none := by
  rw [textsNamed, texts, List.filterMap_filter]
  refine List.filterMap_congr fun (path, entry) _ => ?_
  cases entry <;> simp [Entry.text?]

theorem Mixin.Inputs.read_congr {left right : Archive} (texts : left.texts = right.texts)
    (defaultRefmap : String) : read defaultRefmap [left] = read defaultRefmap [right] := by
  simp only [read, List.flatMap_cons, List.flatMap_nil, Archive.textsNamed_eq, texts]

variable (renamer : Renamer) (renames : Renames) (sideFiles : List SideFile)

/-- An entry at its new path, unless it cannot be renamed. -/
def landed? (pair : String × Entry) : Option (String × Entry) :=
  match renameEntry renamer renames sideFiles pair.1 pair.2 with
  | .ok (moved, _) => some moved
  | .error _ => none

theorem eq_landed_of_renameEntries {entries moved : List (String × Entry)}
    (renamed : (renameEntries renamer renames sideFiles entries).1 = .ok moved) :
    moved = entries.filterMap (landed? renamer renames sideFiles) := by
  induction entries generalizing moved with
  | nil =>
      cases renamed
      rfl
  | cons pair rest ih =>
      obtain ⟨path, entry⟩ := pair
      rw [List.filterMap_cons]
      unfold renameEntries at renamed
      cases first : renameEntry renamer renames sideFiles path entry with
      | error fault => simp [first] at renamed
      | ok made =>
          obtain ⟨place, notices⟩ := made
          simp only [first] at renamed
          cases others : (renameEntries renamer renames sideFiles rest).1 with
          | error fault => simp [others, Except.map] at renamed
          | ok tail =>
              simp only [others, Except.map, Except.ok.injEq] at renamed
              simp only [landed?, first, ← ih others, renamed]

/-- Everything but a text is renamed without fail and without notice. -/
theorem renameEntry_of_other (path : String) {entry : Entry} (other : entry.text? = none) :
    ∃ moved, renameEntry renamer renames sideFiles path entry = .ok (moved, []) := by
  cases entry with
  | classFile node => exact ⟨_, rfl⟩
  | text content => cases other
  | binary bytes => exact ⟨_, rfl⟩

/-- Whether all entries can be renamed, and what there is to notice, only the texts say. -/
theorem renameEntries_texts (entries : List (String × Entry)) :
    let all := renameEntries renamer renames sideFiles entries
    let texts := renameEntries renamer renames sideFiles
      (entries.filter fun (_, entry) => entry.text?.isSome)
    all.1.map (fun _ => ()) = texts.1.map (fun _ => ()) ∧ all.2 = texts.2 := by
  induction entries with
  | nil => exact ⟨rfl, rfl⟩
  | cons pair rest ih =>
      obtain ⟨path, entry⟩ := pair
      have forget (moved : String × Entry) (others : Except ArchiveError (List (String × Entry))) :
          (others.map (moved :: ·)).map (fun _ => ()) = others.map fun _ => () := by
        cases others <;> rfl
      cases text : entry.text? with
      | none =>
          obtain ⟨moved, quiet⟩ := renameEntry_of_other renamer renames sideFiles path text
          rw [List.filter_cons_of_neg (by simp [text])]
          simp only [renameEntries, quiet, forget, List.nil_append]
          exact ih
      | some content =>
          rw [List.filter_cons_of_pos (by simp [text])]
          simp only [renameEntries]
          split
          · exact ⟨rfl, rfl⟩
          · simp only [forget, ih, and_self]

/-! Archives in another order. -/

/-- The path at which an entry comes to lie. -/
def landing (table : RenameTable) (pair : String × Entry) : String :=
  match pair.2 with
  | .classFile node => ClassNode.pathOf ((table.mapClass? node.name).getD node.name)
  | _ => pair.1

theorem landing_of_landed? {pair moved : String × Entry}
    (found : landed? renamer renames sideFiles pair = some moved) :
    moved.1 = landing renamer.table pair := by
  obtain ⟨path, entry⟩ := pair
  unfold landed? at found
  cases entry with
  | classFile node =>
      cases found
      rfl
  | text content =>
      cases kind : sideFiles.find? fun kind => kind.accepts path with
      | none =>
          simp only [renameEntry, kind, Option.some.injEq] at found
          exact found ▸ rfl
      | some kind' =>
          cases made : kind'.transform path content renamer with
          | error fault =>
              simp [renameEntry, kind, made, bind, Except.bind] at found
          | ok result =>
              simp only [renameEntry, kind, made, bind, Except.bind, Option.some.injEq] at found
              exact found ▸ rfl
  | binary bytes =>
      cases found
      rfl

theorem keys_landed_sublist (entries : List (String × Entry)) :
    ((entries.filterMap (landed? renamer renames sideFiles)).map Prod.fst).Sublist
      (entries.map (landing renamer.table)) := by
  induction entries with
  | nil => exact .slnil
  | cons pair rest ih =>
      cases found : landed? renamer renames sideFiles pair with
      | none =>
          rw [List.filterMap_cons_none found]
          exact ih.cons _
      | some moved =>
          rw [List.filterMap_cons_some found, List.map_cons, List.map_cons,
            landing_of_landed? renamer renames sideFiles found]
          exact ih.cons_cons _

/-- Texts put into archives that hold the same entries. -/
theorem putTexts_perm {α : Type} (write : α → String) (texts : List (String × α))
    {left right : Archive} (same : left.entries.Perm right.entries)
    (distinct : right.entries.keys.Nodup) :
    let put (archive : Archive) : Archive :=
      texts.foldl (fun done (path, content) => done.putText path (write content)) archive
    (put left).entries.Perm (put right).entries ∧ (put right).entries.keys.Nodup := by
  induction texts generalizing left right with
  | nil => exact ⟨same, distinct⟩
  | cons text rest ih =>
      exact ih (Keyed.put_perm _ _ same distinct) (Keyed.keys_put_nodup _ _ _ distinct)

/-- Two results of a renaming: one fault, or archives with the same entries if no two of them
come to lie at one path. -/
inductive SameArchive (apart : Prop) :
    Except ArchiveError Archive → Except ArchiveError Archive → Prop where
  | error (fault : ArchiveError) : SameArchive apart (.error fault) (.error fault)
  | ok {left right : Archive}
      (same : apart → left.entries.Perm right.entries ∧ right.entries.keys.Nodup) :
      SameArchive apart (.ok left) (.ok right)

theorem renameArchives_order_irrelevant {other input : Archive}
    (same : other.entries.Perm input.entries) (texts : other.texts = input.texts) :
    SameArchive (input.entries.map (landing renamer.table)).Nodup
        (renameArchives renamer renames sideFiles [other]).1
        (renameArchives renamer renames sideFiles [input]).1 ∧
      (renameArchives renamer renames sideFiles [other]).2 =
        (renameArchives renamer renames sideFiles [input]).2 := by
  have alone (archive : Archive) : [archive].flatMap Archive.entries = archive.entries := by
    rw [List.flatMap_cons, List.flatMap_nil, List.append_nil]
  obtain ⟨ourResult, ourNotices⟩ := renameEntries_texts renamer renames sideFiles other.entries
  obtain ⟨theirResult, theirNotices⟩ :=
    renameEntries_texts renamer renames sideFiles input.entries
  rw [Archive.texts, Archive.texts] at texts
  rw [texts, ← theirResult] at ourResult
  rw [texts, ← theirNotices] at ourNotices
  simp only [renameArchives, alone]
  refine ⟨?_, ourNotices⟩
  cases ours : (renameEntries renamer renames sideFiles other.entries).1 with
  | error fault =>
      cases theirs : (renameEntries renamer renames sideFiles input.entries).1 with
      | error reason =>
          rw [ours, theirs] at ourResult
          cases ourResult
          exact .error fault
      | ok moved =>
          rw [ours, theirs] at ourResult
          cases ourResult
  | ok moved =>
      cases theirs : (renameEntries renamer renames sideFiles input.entries).1 with
      | error reason =>
          rw [ours, theirs] at ourResult
          cases ourResult
      | ok originally =>
          refine .ok fun apart => ?_
          rw [eq_landed_of_renameEntries _ _ _ ours, eq_landed_of_renameEntries _ _ _ theirs]
          -- Only entries that meet at one path could tell the orders apart.
          have places := apart.sublist
            (keys_landed_sublist renamer renames sideFiles input.entries)
          have moves := same.filterMap (landed? renamer renames sideFiles)
          dsimp only
          rw [Keyed.ofList_of_nodup places,
            Keyed.ofList_of_nodup ((moves.map _).nodup_iff.mpr places)]
          exact ⟨moves, places⟩

/-- The renaming of an archive, in the order of its classes or in another one. -/
structure Renaming.SameOutcome (apart : Prop) (left right : Renaming) : Prop where
  archive : SameArchive apart left.archive right.archive
  refmaps : left.refmaps = right.refmaps
  notices : left.notices.Perm right.notices

namespace Mixin.Hop

theorem addMixinFiles_order_irrelevant {registry : Registry} {options : Options}
    {inputs : Inputs} {left right : Renamer} {ours theirs : HopState}
    (refmaps : ours.refmaps = theirs.refmaps) (first second : Archive) :
    (addMixinFiles ⟨registry, options, inputs, left⟩ ours first).2 =
        (addMixinFiles ⟨registry, options, inputs, right⟩ theirs second).2 ∧
      (first.entries.Perm second.entries ∧ second.entries.keys.Nodup →
        let written := addMixinFiles ⟨registry, options, inputs, right⟩ theirs second
        (addMixinFiles ⟨registry, options, inputs, left⟩ ours first).1.entries.Perm
            written.1.entries ∧ written.1.entries.keys.Nodup) := by
  simp only [addMixinFiles, writtenRefmaps, refmaps, true_and]
  intro ⟨same, distinct⟩
  obtain ⟨configured, apart⟩ := putTexts_perm Json.Value.indentedText inputs.configs same distinct
  exact putTexts_perm ReferenceMap.write _ configured apart

end Mixin.Hop

theorem Renaming.withMixins_order_irrelevant (registry : Registry) (options : Options)
    (sideFiles : List SideFile) {left right : Renamer} (alike : left.Alike right)
    {other input : Archive} (same : other.entries.Perm input.entries)
    (texts : other.texts = input.texts) (distinct : (input.classes.map (·.name)).Nodup) :
    SameOutcome (input.entries.map (landing right.table)).Nodup
      (withMixins registry options sideFiles left [other])
      (withMixins registry options sideFiles right [input]) := by
  have classes : other.classes.Perm input.classes :=
    (same.map Prod.snd).filterMap Entry.class?
  have reads := Mixin.Inputs.read_congr texts options.defaultRefmap
  have only (archive : Archive) : [archive].flatMap Archive.classes = archive.classes := by
    rw [List.flatMap_cons, List.flatMap_nil, List.append_nil]
  unfold withMixins
  rw [reads]
  split
  · exact ⟨.error _, rfl, .refl _⟩
  · rename_i read found _
    have outcome := @Hop.runIn_order_irrelevant registry options read left right alike
      input.classes other.classes other.classes distinct classes classes
    rw [← Hop.run_eq_runIn] at outcome
    simp only [only]
    generalize Hop.run _ other.classes = ours at outcome ⊢
    generalize Hop.run _ input.classes = theirs at outcome ⊢
    obtain ⟨renames, refmaps, notices⟩ := outcome
    -- First the renamer is exchanged, then the order of the entries.
    have moved : renameArchives left ours.renames sideFiles [other] =
        renameArchives right theirs.renames sideFiles [other] := by
      simp only [renameArchives, renameEntries_congr alike, renames]
    obtain ⟨archives, more⟩ :=
      renameArchives_order_irrelevant right theirs.renames sideFiles same texts
    rw [moved, refmaps]
    generalize renameArchives right theirs.renames sideFiles [other] = first at archives more ⊢
    generalize renameArchives right theirs.renames sideFiles [input] = second at archives more ⊢
    obtain ⟨firstArchive, firstNotices⟩ := first
    obtain ⟨secondArchive, secondNotices⟩ := second
    dsimp only at archives more ⊢
    subst more
    cases archives with
    | error fault =>
        exact ⟨.error fault, rfl, (notices.append_left found).append_right _⟩
    | ok landed =>
        obtain ⟨last, written⟩ := Hop.addMixinFiles_order_irrelevant refmaps _ _
        refine ⟨.ok fun apart => written (landed apart), rfl, ?_⟩
        dsimp only
        rw [last]
        exact ((notices.append_left found).append_right _).append_right _

/-- The renamer of a hop over one archive. -/
def renamerOf (table : RenameTable) (classpath : List Archive) (input : Archive) : Renamer :=
  ⟨table, .ofNodes (([input] ++ classpath).flatMap Archive.classes)⟩

theorem alike_renamerOf (table : RenameTable) (classpath : List Archive)
    {other input : Archive} (same : other.entries.Perm input.entries)
    (distinct : (input.classes.map (·.name)).Nodup) :
    (renamerOf table classpath other).Alike (renamerOf table classpath input) where
  table := rfl
  hierarchy := by
    have classes : other.classes.Perm input.classes :=
      (same.map Prod.snd).filterMap Entry.class?
    simpa [renamerOf] using
      Hierarchy.alike_of_perm classes distinct (classpath.flatMap Archive.classes)

/-- The classes of an archive may come in any order, and may be collected and finished in any
order, if their names are distinct and the texts keep theirs. The same mixin files are read,
the work on mixins comes to the same outcome, every class is renamed to the same class, and
the hop ends in the same way. -/
theorem Archive.class_order_irrelevant (table : RenameTable) (registry : Registry)
    (options : Options) (sideFiles : List SideFile) (classpath : List Archive)
    {other input : Archive} (same : other.entries.Perm input.entries)
    (texts : other.texts = input.texts) (distinct : (input.classes.map (·.name)).Nodup) :
    Mixin.Inputs.read options.defaultRefmap [other] =
        Mixin.Inputs.read options.defaultRefmap [input] ∧
      (∀ read collected finished, collected.Perm input.classes → finished.Perm input.classes →
        let ours : Hop := ⟨registry, options, read, renamerOf table classpath other⟩
        let theirs : Hop := ⟨registry, options, read, renamerOf table classpath input⟩
        Hop.SameOutcome (ours.runIn collected finished) (theirs.run input.classes) ∧
          ∀ node : ClassNode,
            node.rename ours.renamer (ours.runIn collected finished).renames =
              node.rename theirs.renamer (theirs.run input.classes).renames) ∧
      Renaming.SameOutcome (input.entries.map (landing table)).Nodup
        (.ofInputs table ⟨some (registry, options), sideFiles⟩ classpath [other])
        (.ofInputs table ⟨some (registry, options), sideFiles⟩ classpath [input]) := by
  have alike := alike_renamerOf table classpath same distinct
  refine ⟨Mixin.Inputs.read_congr texts _, ?_, ?_⟩
  · intro read collected finished collects finishes
    have outcome := @Hop.runIn_order_irrelevant registry options read _ _ alike
      input.classes collected finished distinct collects finishes
    refine ⟨outcome, fun node => ?_⟩
    rw [outcome.renames]
    exact node.rename_congr alike _
  · exact Renaming.withMixins_order_irrelevant registry options sideFiles alike same texts
      distinct

/-- Two classes around a text, one of them a mixin for the other. -/
def mixinPair : Archive :=
  ⟨[("a.class", .classFile ⟨"a", 0, none, [], [], [], []⟩),
    ("refmap.json", .text "\x7b\x7d"),
    ("m/M.class", .classFile
      ⟨"m/M", 0, none, [], [⟨"Lorg/spongepowered/asm/mixin/Mixin;",
        [("targets", .array [.string "a"])]⟩], [], []⟩)]⟩

theorem Archive.class_order_irrelevant_swapped :
    let swapped : Archive := ⟨mixinPair.entries.reverse⟩
    Renaming.SameOutcome
      (mixinPair.entries.map (landing (.empty "official" "named"))).Nodup
      (.ofInputs (.empty "official" "named") ⟨some (.standard true, .standard), []⟩ [] [swapped])
      (.ofInputs (.empty "official" "named") ⟨some (.standard true, .standard), []⟩ []
        [mixinPair]) :=
  (Archive.class_order_irrelevant (.empty "official" "named") (.standard true) .standard [] []
    (List.reverse_perm _) rfl (by decide)).2.2

end ArchiveRemap
