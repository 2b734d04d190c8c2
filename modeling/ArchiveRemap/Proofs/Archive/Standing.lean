import ArchiveRemap.Proofs.Archive.Texts
import ArchiveRemap.Proofs.Mixin.Standing
import ArchiveRemap.Proofs.Mixin.Writing

/-!
Members of mixin classes in the archive that a hop writes. A member that stands for one of a
class of the input has the name there that this class gives to the other, behind its marker.
-/

namespace ArchiveRemap

open Mixin (Registry Options Hop Renames)

/-! Classes of the archive. -/

/-- Texts were put over an archive. What lies at a path is what lay there, or such a text. -/
structure Archive.Overlaid (before after : Archive) : Prop where
  distinct : after.entries.keys.Nodup
  get? : ∀ path, after.entries.get? path = before.entries.get? path ∨
    ∃ content, after.entries.get? path = some (.text content)

namespace Archive.Overlaid

variable {before between after : Archive} {path : String}

theorem refl (distinct : before.entries.keys.Nodup) : before.Overlaid before :=
  ⟨distinct, fun _ => .inl rfl⟩

theorem putTexts {α : Type} (write : α → String) (texts : List (String × α))
    (overlaid : before.Overlaid between) : before.Overlaid (between.putTexts write texts) := by
  induction texts generalizing between with
  | nil => exact overlaid
  | cons first rest ih =>
      have step : before.Overlaid (between.putText first.1 (write first.2)) := by
        refine ⟨Keyed.keys_put_nodup _ _ _ overlaid.distinct, fun path => ?_⟩
        rw [putText, Keyed.get?_put]
        split
        · exact .inr ⟨_, rfl⟩
        · exact overlaid.get? path
      exact ih step

variable (overlaid : before.Overlaid after)
include overlaid

/-- No class is new. -/
theorem get?_of_class {node : ClassNode}
    (found : after.entries.get? path = some (.classFile node)) :
    before.entries.get? path = some (.classFile node) := by
  rcases overlaid.get? path with kept | ⟨content, text⟩
  · exact kept.symm.trans found
  · rw [text] at found
    cases found

/-- What lies where no text is stays there. -/
theorem get?_of_untexted (untexted : after.text? path = none) :
    after.entries.get? path = before.entries.get? path := by
  refine (overlaid.get? path).resolve_right ?_
  rintro ⟨content, text⟩
  rw [text?, text] at untexted
  cases untexted

end Archive.Overlaid

theorem Entry.eq_of_class? {entry : Entry} {node : ClassNode}
    (held : entry.class? = some node) : entry = .classFile node := by
  cases entry <;> cases held
  rfl

/-- A class lands as the class of its entry, renamed. -/
theorem class_of_landed? {renamer : Renamer} {renames : Renames} {sideFiles : List SideFile}
    {pair : String × Entry} {path : String} {new : ClassNode}
    (moved : landed? renamer renames sideFiles pair = some (path, .classFile new)) :
    ∃ old, pair.2 = .classFile old ∧ new = old.rename renamer renames := by
  obtain ⟨place, entry⟩ := pair
  cases entry with
  | classFile old =>
      cases moved
      exact ⟨old, rfl, rfl⟩
  | binary bytes => cases moved
  | text content =>
      cases taken : sideFiles.find? fun kind => kind.accepts place with
      | none =>
          simp only [landed?, renameEntry, taken] at moved
          cases moved
      | some kind =>
          cases made : kind.transform place content renamer with
          | error fault => simp [landed?, renameEntry, taken, made, bind, Except.bind] at moved
          | ok result => simp [landed?, renameEntry, taken, made, bind, Except.bind] at moved

namespace Mixin.Hop

/-- The hop over some inputs, with what their mixin files say. -/
def ofInputs (table : RenameTable) (registry : Registry) (options : Options)
    (classpath inputs : List Archive) (read : Inputs) : Hop :=
  ⟨registry, options, read, ⟨table, .ofNodes ((inputs ++ classpath).flatMap Archive.classes)⟩⟩

/-- A class of the inputs with its new names. -/
def renamed (hop : Hop) (inputs : List Archive) (node : ClassNode) : ClassNode :=
  node.rename hop.renamer (hop.run (inputs.flatMap Archive.classes)).renames

/-- The classes of an archive are those of the inputs with their new names, and every class is
there that neither another entry nor a text meets at its new path. -/
structure Writes (hop : Hop) (inputs : List Archive) (out : Archive) : Prop where
  classes : ∀ new ∈ out.classes, ∃ old ∈ inputs.flatMap Archive.classes,
    new = hop.renamed inputs old
  kept : ∀ node ∈ inputs.flatMap Archive.classes,
    (∀ pair ∈ inputs.flatMap Archive.entries,
      landing hop.renamer.table pair = ClassNode.pathOf (hop.renamer.mapClass node.name) →
        pair.2 = .classFile node) →
    out.text? (ClassNode.pathOf (hop.renamer.mapClass node.name)) = none →
      out.class? (hop.renamer.mapClass node.name) = some (hop.renamed inputs node)

end Mixin.Hop

section

variable {registry : Registry} {options : Options} {sideFiles : List SideFile}
  {renamer : Renamer} {inputs : List Archive} {out : Archive}

/-- A hop that comes to an archive has put the texts of its mixins over the entries that it
moved. -/
theorem Renaming.withMixins_moved
    (made : (withMixins registry options sideFiles renamer inputs).archive = .ok out) :
    ∃ read, (Mixin.Inputs.read options.defaultRefmap inputs).1 = .ok read ∧
      Archive.Overlaid ⟨Keyed.ofList ((inputs.flatMap Archive.entries).filterMap (landed? renamer
        ((⟨registry, options, read, renamer⟩ : Hop).run (inputs.flatMap Archive.classes)).renames
        sideFiles))⟩ out := by
  unfold withMixins at made
  rcases reads : Mixin.Inputs.read options.defaultRefmap inputs with ⟨fault | read, notices⟩
  · rw [reads] at made
    cases made
  · refine ⟨read, rfl, ?_⟩
    simp only [reads] at made
    generalize Hop.run _ _ = state at made ⊢
    rcases came : renameArchives renamer state.renames sideFiles inputs with
      ⟨fault | archive, more⟩
    · rw [came] at made
      cases made
    · rw [came] at made
      cases made
      obtain ⟨moved, entries, held⟩ :=
        entries_of_renameArchives renamer state.renames sideFiles (congrArg Prod.fst came)
      rw [eq_landed_of_renameEntries _ _ _ entries] at held
      rw [← held]
      have distinct := nodup_renameArchives _ _ _ (congrArg Prod.fst came)
      exact ((Archive.Overlaid.refl distinct).putTexts _ _).putTexts _ _

theorem Mixin.Hop.writes_of_made
    (made : (Renaming.withMixins registry options sideFiles renamer inputs).archive = .ok out) :
    ∃ read, (Mixin.Inputs.read options.defaultRefmap inputs).1 = .ok read ∧
      (⟨registry, options, read, renamer⟩ : Hop).Writes inputs out := by
  obtain ⟨read, reads, overlaid⟩ := Renaming.withMixins_moved made
  refine ⟨read, reads, fun new listed => ?_, fun node listed alone untexted => ?_⟩
  · obtain ⟨entry, value, held⟩ := List.mem_filterMap.mp listed
    obtain ⟨⟨path, _⟩, inside, rfl⟩ := List.mem_map.mp value
    obtain rfl := Entry.eq_of_class? held
    have found := overlaid.get?_of_class (Keyed.get?_of_mem overlaid.distinct inside)
    rw [Keyed.get?_ofList] at found
    obtain ⟨pair, origin, moved⟩ :=
      List.mem_filterMap.mp (List.mem_reverse.mp (Keyed.mem_of_get? found))
    obtain ⟨old, kind, rfl⟩ := class_of_landed? moved
    obtain ⟨input, given, entry⟩ := List.mem_flatMap.mp origin
    exact ⟨old, List.mem_flatMap.mpr ⟨input, given, Archive.mem_classes entry (by rw [kind]; rfl)⟩,
      rfl⟩
  · have lands : ∀ pair : String × Entry, pair.2 = .classFile node →
        landed? renamer
          ((⟨registry, options, read, renamer⟩ : Hop).run (inputs.flatMap Archive.classes)).renames
          sideFiles pair = some (ClassNode.pathOf (renamer.mapClass node.name),
            .classFile ((⟨registry, options, read, renamer⟩ : Hop).renamed inputs node)) := by
      rintro ⟨path, entry⟩ rfl
      rfl
    obtain ⟨input, given, own⟩ := List.mem_flatMap.mp listed
    obtain ⟨entry, value, held⟩ := List.mem_filterMap.mp own
    obtain ⟨pair, origin, rfl⟩ := List.mem_map.mp value
    have moved := List.mem_filterMap.mpr
      ⟨pair, List.mem_flatMap.mpr ⟨input, given, origin⟩, lands pair (Entry.eq_of_class? held)⟩
    have found := Keyed.get?_ofList_of_alone moved fun other inside meets => by
      obtain ⟨source, place, came⟩ := List.mem_filterMap.mp inside
      have there := landing_of_landed? _ _ _ came
      exact Option.some_inj.mp
        (came.symm.trans (lands source (alone source place (there.symm.trans meets))))
    rw [Archive.class?, overlaid.get?_of_untexted untexted, found]
    rfl

end

/-! Names in the archive. -/

theorem ClassNode.getElem?_members_rename {renamer : Renamer} {renames : Renames}
    {node : ClassNode} {kind : MemberKind} {place : Nat} {member : MemberNode}
    (there : (node.members kind)[place]? = some member) :
    ((node.rename renamer renames).members kind)[place]? =
      some (member.rename renamer renames kind node.name) := by
  have members : (node.rename renamer renames).members kind =
      (node.members kind).map (·.rename renamer renames kind node.name) := by
    cases kind <;> rfl
  rw [members, List.getElem?_map, there, Option.map_some]

/-- A class of the inputs is found there before any of the classpath. -/
theorem Hierarchy.class?_of_input {inputs classpath : List Archive} {node : ClassNode}
    (distinct : ((inputs.flatMap Archive.classes).map (·.name)).Nodup)
    (inside : node ∈ inputs.flatMap Archive.classes) :
    (ofNodes ((inputs ++ classpath).flatMap Archive.classes)).class? node.name =
      some (.ofNode node) := by
  have first : (inputs.flatMap Archive.classes).find? (·.name = node.name) = some node := by
    cases found : (inputs.flatMap Archive.classes).find? (·.name = node.name) with
    | none => exact absurd (List.find?_eq_none.mp found node inside) (by simp)
    | some other =>
        rw [List.inj_on_of_nodup_map distinct (List.mem_of_find?_eq_some found) inside
          (by simpa using List.find?_some found)]
  rw [class?_ofNodes, List.flatMap_append, List.find?_append, first]
  rfl

/-- What is found in a class of the inputs is declared there. -/
theorem Hierarchy.declaration_of_input {inputs classpath : List Archive} {node : ClassNode}
    (distinct : ((inputs.flatMap Archive.classes).map (·.name)).Nodup)
    (inside : node ∈ inputs.flatMap Archive.classes) {query : MemberQuery} {member : MemberRef}
    (declares : member ∈ (ofNodes ((inputs ++ classpath).flatMap Archive.classes)).declared query
      node.name) :
    ∃ declared ∈ node.members query.kind, declared.name = member.name ∧
      declared.desc = member.desc := by
  rw [declared, class?_of_input distinct inside] at declares
  obtain ⟨signature, listed, rfl⟩ := List.mem_map.mp declares
  have members : (ClassShape.ofNode node).members query.kind =
      (node.members query.kind).map fun member => ⟨member.name, member.desc⟩ := by
    cases query.kind <;> rfl
  rw [members] at listed
  obtain ⟨own, inside, rfl⟩ := List.mem_map.mp (List.mem_filter.mp listed).1
  exact ⟨own, inside, rfl, rfl⟩

/-- A member with one hard task follows the declaration that its task finds. In the archive that
comes out it has the name that the class of the declaration has for it there, behind the marker
that its own name carried, and the same descriptor. -/
theorem Renaming.standing_follows_target (table : RenameTable) (registry : Registry)
    (options : Options) (sideFiles : List SideFile) (classpath : List Archive)
    {inputs : List Archive} {out : Archive}
    (distinct : ((inputs.flatMap Archive.classes).map (·.name)).Nodup)
    (made : (ofInputs table ⟨some (registry, options), sideFiles⟩ classpath inputs).archive =
      .ok out) :
    ∃ read, (Mixin.Inputs.read options.defaultRefmap inputs).1 = .ok read ∧
      let hop : Hop := .ofInputs table registry options classpath inputs read
      let nodes := inputs.flatMap Archive.classes
      hop.Writes inputs out ∧
      ∀ node ∈ nodes, ∀ work : Mixin.MixinWork, Mixin.contextOf? registry node = some work →
        ∀ (kind : MemberKind) (place : Nat) (member : MemberNode) (task : Mixin.Task),
          (node.members kind)[place]? = some member →
          Mixin.Standing registry node kind member task →
        ∀ located : Mixin.Located,
          (hop.hardScope work).nearest? (Hop.standingQuery kind member task)
            (hop.hardScope work).targets = some located →
        ∀ owner ∈ nodes, owner.name = located.member.owner →
          (hop.run nodes).renames.name? kind owner.name located.member.name
            located.member.desc = none →
        (∃ declared ∈ owner.members kind, declared.name = located.member.name ∧
          declared.desc = located.member.desc) ∧
        ∀ (spot : Nat) (declared : MemberNode), (owner.members kind)[spot]? = some declared →
          declared.name = located.member.name → declared.desc = located.member.desc →
        ∃ standing target : MemberNode,
          ((hop.renamed inputs node).members kind)[place]? = some standing ∧
            ((hop.renamed inputs owner).members kind)[spot]? = some target ∧
            standing.name =
              (Mixin.Scope.dropMarker task.marker member.name).2 ++ target.name ∧
            standing.desc = target.desc := by
  obtain ⟨read, reads, writes⟩ := Mixin.Hop.writes_of_made made
  refine ⟨read, reads, writes, ?_⟩
  intro node inside work mixin kind place member task there standing located live owner listed
    owned plain
  have declares := Mixin.Scope.declared_of_nearest? live
  -- The query of a hard task names a descriptor, so what it finds has the same one.
  have described : located.member.desc = member.desc := congrArg Signature.desc
    (MemberQuery.eq_of_matches rfl (Hierarchy.matches_of_mem_declared declares))
  refine ⟨Hierarchy.declaration_of_input distinct listed (owned ▸ declares), ?_⟩
  intro spot declared here named typed
  refine ⟨_, _, ClassNode.getElem?_members_rename there, ClassNode.getElem?_members_rename here,
    ?_, ?_⟩
  · have renamed := Hop.name?_run_of_standing distinct inside mixin standing live
    rw [owned] at plain
    simp only [MemberNode.rename, renamed, named, typed, owned, plain, Option.getD_some,
      Option.getD_none]
    rfl
  · simp only [MemberNode.rename, typed, described]

/-! A class with a method, and a mixin with a member in place of it. -/

def shadowingMember : MemberNode :=
  ⟨0, "shadow$d", "()V", [⟨"Lorg/spongepowered/asm/mixin/Shadow;", []⟩]⟩

def shadowingMixin : ClassNode :=
  ⟨"m/M", 0, none, [], [⟨"Lorg/spongepowered/asm/mixin/Mixin;", [("value", .type "La;")]⟩], [],
    [shadowingMember]⟩

def shadowedClass : ClassNode := ⟨"a", 0, none, [], [], [], [⟨0, "d", "()V", []⟩]⟩

def shadowingPair : Archive :=
  ⟨[("a.class", .classFile shadowedClass), ("m/M.class", .classFile shadowingMixin)]⟩

def tickTable : RenameTable :=
  ⟨"official", "named", [("a", ⟨"A", [], [⟨"d", "()V", "tick"⟩]⟩)]⟩

def shadowingHop (read : Mixin.Inputs) : Hop :=
  .ofInputs tickTable (.standard true) .standard [] [shadowingPair] read

theorem resolve_shadowingHop (read : Mixin.Inputs) :
    (shadowingHop read).renamer.hierarchy.resolve = fun query owner _ mode =>
      (shadowingHop read).renamer.hierarchy.resolve query owner false mode := by
  refine Hierarchy.resolve_eq_of_alone fun owner => ?_
  unfold Hierarchy.parents
  split
  · rename_i info found
    have known : (Hierarchy.ofNodes [shadowedClass, shadowingMixin]).class? owner = some info :=
      found
    rw [Hierarchy.class?_ofNodes, Option.map_eq_some_iff] at known
    obtain ⟨node, first, rfl⟩ := known
    rcases List.mem_cons.mp (List.mem_of_find?_eq_some first) with rfl | second
    · rfl
    · rw [List.mem_singleton.mp second]
      rfl
  · rfl

def shadowingTask : Mixin.Task := .shadow .method "shadow$d" "()V" "shadow$"

/-- The mixin calls its member what the class calls the method, with the marker in front. -/
theorem Renaming.standing_follows_target_marked : ∃ read, ∃ standing target : MemberNode,
    (Mixin.Inputs.read "unknown-refmap.json" [shadowingPair]).1 = .ok read ∧
      ((shadowingHop read).renamed [shadowingPair] shadowingMixin).methods[0]? = some standing ∧
      ((shadowingHop read).renamed [shadowingPair] shadowedClass).methods[0]? = some target ∧
      standing.name = "shadow$" ++ target.name ∧ standing.desc = target.desc := by
  have comes : ∃ out, (ofInputs tickTable ⟨some (.standard true, .standard), []⟩ []
      [shadowingPair]).archive = .ok out := ⟨_, rfl⟩
  obtain ⟨out, made⟩ := comes
  have distinct : (([shadowingPair].flatMap Archive.classes).map (·.name)).Nodup := by decide
  obtain ⟨read, reads, -, follows⟩ :=
    standing_follows_target tickTable (.standard true) .standard [] [] distinct made
  have standing : Mixin.Standing (.standard true) shadowingMixin .method shadowingMember
      shadowingTask := {
    listed := List.mem_singleton_self _
    alone := fun other inside _ _ => List.mem_singleton.mp inside
    asked := rfl }
  have live : ((shadowingHop read).hardScope ⟨"m/M", ["a"], [shadowingTask], .empty⟩).nearest?
      (Hop.standingQuery .method shadowingMember shadowingTask) ["a"] =
        some ⟨"a", "a", "d", "()V"⟩ := by
    have renamer : ((shadowingHop read).hardScope
        ⟨"m/M", ["a"], [shadowingTask], .empty⟩).renamer = (shadowingHop read).renamer := rfl
    unfold Mixin.Scope.nearest? Mixin.Scope.lookup
    rw [renamer, resolve_shadowingHop]
    rfl
  have plain : ((shadowingHop read).run ([shadowingPair].flatMap Archive.classes)).renames.name?
      .method "a" "d" "()V" = none :=
    Hop.name?_run_of_plain distinct List.mem_cons_self rfl "d" "()V"
  obtain ⟨-, named⟩ := follows shadowingMixin (List.mem_cons_of_mem _ List.mem_cons_self) _ rfl
    .method 0 shadowingMember shadowingTask rfl standing _ live shadowedClass List.mem_cons_self
    rfl plain
  obtain ⟨mine, target, there, here, names⟩ := named 0 ⟨0, "d", "()V", []⟩ rfl rfl rfl
  exact ⟨read, mine, target, reads, there, here, names⟩

end ArchiveRemap
