import ArchiveRemap.Proofs.Mixin.Handed
import ArchiveRemap.Proofs.Mixin.Standing

/-!
Where a mixin class lets its references be renamed. The truth value of `remap` comes down from
the mixin annotation to the annotations of members, to the points of an injector, and through
slices to the points at their ends. A class asks for something only in places where the innermost
value that is written allows it, or where none is written.
-/

namespace ArchiveRemap.Mixin

/-- The truth value of `remap` in the innermost of some annotations that has one. -/
def innermost? (around : List AnnotationNode) : Option Bool :=
  around.findSome? fun note => (note.get? "remap").bind Element.bool?

/-- Whether references are to be renamed inside all these annotations. -/
def allows (around : List AnnotationNode) : Bool := (innermost? around).getD true

theorem remap_allows (note : AnnotationNode) (outer : List AnnotationNode) :
    note.remap (allows outer) = allows (note :: outer) := by
  rw [allows, allows, innermost?, innermost?, List.findSome?_cons, AnnotationNode.remap]
  cases (note.get? "remap").bind Element.bool? <;> rfl

/-- A place in a mixin class: the annotations around it, the innermost first, and what it asks
for if references are to be renamed there. -/
structure Place where
  around : List AnnotationNode
  asks : List Task

def Place.tasks (place : Place) : List Task :=
  if allows place.around then place.asks else []

theorem Place.tasks_eq_nil {place : Place}
    (forbidden : place.asks ≠ [] → innermost? place.around = some false) : place.tasks = [] := by
  by_cases asks : place.asks = []
  · rw [tasks, asks, ite_self]
  · rw [tasks, allows, forbidden asks]
    rfl

/-! The places of a class, in the order in which they are collected. -/

def pointPlace (name : String) (outer : List AnnotationNode) (point : AnnotationNode) : Place where
  around := point :: outer
  asks :=
    match point.string? "target", (point.strings "args").filter isClassArgument with
    | none, [] => []
    | target, arguments => [.injectionPoint name target arguments]

theorem injectionPointTasks_eq (name : String) (outer : List AnnotationNode)
    (point : AnnotationNode) :
    injectionPointTasks name (allows outer) point = (pointPlace name outer point).tasks := by
  rw [injectionPointTasks, remap_allows]
  rfl

/-- The ends of a slice. -/
def slicePlaces (outer : List AnnotationNode) (slice : AnnotationNode) : List Place :=
  (slice.annotations "from" ++ slice.annotations "to").map (pointPlace "@Slice" (slice :: outer))

theorem sliceTasks_eq (outer : List AnnotationNode) (slice : AnnotationNode) :
    sliceTasks (allows outer) slice = (slicePlaces outer slice).flatMap Place.tasks := by
  rw [sliceTasks, slicePlaces, List.flatMap_map, remap_allows]
  exact congrArg (List.flatMap · _) (funext (injectionPointTasks_eq "@Slice" (slice :: outer)))

/-- The points and the slices of an injector. -/
def innerPlaces (rule : Rule) (around : List AnnotationNode) (note : AnnotationNode) :
    List Place :=
  match rule.handler with
  | .injector =>
      (note.annotations "at").map (pointPlace "@At" around) ++
        (note.annotations "slice").flatMap (slicePlaces around)
  | _ => []

/-- What the annotation of a method asks for itself. -/
def ownTasks (rule : Rule) (note : AnnotationNode) (member : MemberNode) : List Task :=
  match rule.handler with
  | .injector => methodTargetTasks rule.name note
  | _ => methodTasks rule note member true

def fieldPlaces (outer : List AnnotationNode) (rule : Rule) (note : AnnotationNode)
    (member : MemberNode) : List Place :=
  [⟨note :: outer, fieldTasks rule note member true⟩]

def methodPlaces (outer : List AnnotationNode) (rule : Rule) (note : AnnotationNode)
    (member : MemberNode) : List Place :=
  ⟨note :: outer, ownTasks rule note member⟩ :: innerPlaces rule (note :: outer) note

theorem fieldTasks_eq (outer : List AnnotationNode) (rule : Rule) (note : AnnotationNode)
    (member : MemberNode) :
    fieldTasks rule note member (note.remap (allows outer)) =
      (fieldPlaces outer rule note member).flatMap Place.tasks := by
  rw [remap_allows, fieldPlaces, List.flatMap_singleton, Place.tasks]
  unfold fieldTasks
  cases rule.handler <;> simp

theorem methodTasks_eq (outer : List AnnotationNode) (rule : Rule) (note : AnnotationNode)
    (member : MemberNode) :
    methodTasks rule note member (note.remap (allows outer)) =
      (methodPlaces outer rule note member).flatMap Place.tasks := by
  rw [remap_allows, methodPlaces, List.flatMap_cons, Place.tasks]
  unfold methodTasks ownTasks innerPlaces
  cases handler : rule.handler with
  | injector =>
      simp only [List.flatMap_append, List.flatMap_map, List.flatMap_assoc, ← sliceTasks_eq,
        ← injectionPointTasks_eq, List.append_assoc]
  | _ => simp [methodTasks, handler]

/-- The places of one member, annotation by annotation. -/
def memberPlaces (registry : Registry) (site : Site)
    (places : Rule → AnnotationNode → MemberNode → List Place) (member : MemberNode) : List Place :=
  member.annotations.flatMap fun note =>
    match registry.lookup? site note with
    | some rule => places rule note member
    | none => []

theorem memberTasks_eq {registry : Registry} {site : Site} {outer : List AnnotationNode}
    {tasks : Rule → AnnotationNode → MemberNode → Bool → List Task}
    {places : Rule → AnnotationNode → MemberNode → List Place}
    (equal : ∀ rule note member, tasks rule note member (note.remap (allows outer)) =
      (places rule note member).flatMap Place.tasks) (member : MemberNode) :
    memberTasks registry site tasks (allows outer) member =
      (memberPlaces registry site places member).flatMap Place.tasks := by
  rw [memberTasks, memberPlaces, List.flatMap_assoc]
  congr 1
  funext note
  cases registry.lookup? site note with
  | none => rfl
  | some rule => exact equal rule note member

/-- All places of a class with a mixin annotation. -/
def placesOf (registry : Registry) (mixin : AnnotationNode) (node : ClassNode) : List Place :=
  ⟨[mixin], if (mixin.strings "targets").isEmpty then [] else
    [.mixinTargets (mixin.strings "targets")]⟩ ::
    (node.fields.flatMap (memberPlaces registry .onField (fieldPlaces [mixin])) ++
      node.methods.flatMap (memberPlaces registry .onMethod (methodPlaces [mixin])))

section

variable {registry : Registry} {node : ClassNode} {note : AnnotationNode} {work : MixinWork}

/-- A class asks for what its places ask for where references are to be renamed. -/
theorem tasks_of_contextOf? (noted : mixinNote? registry node = some note)
    (mixin : contextOf? registry node = some work) :
    work.tasks = (placesOf registry note node).flatMap Place.tasks := by
  have remap : note.remap true = allows [note] := remap_allows note []
  rw [contextOf?, noted] at mixin
  cases mixin
  rw [placesOf, List.flatMap_cons, List.flatMap_append, List.flatMap_assoc, List.flatMap_assoc]
  simp only [remap, ← memberTasks_eq (fieldTasks_eq [note]),
    ← memberTasks_eq (methodTasks_eq [note])]
  congr 1
  rw [Place.tasks]
  cases allows [note] <;> cases (note.strings "targets").isEmpty <;> rfl

/-- String targets that are not to be renamed are targets from the start. -/
theorem targets_of_contextOf? (noted : mixinNote? registry node = some note)
    (mixin : contextOf? registry node = some work) :
    work.targets = literalTargets note ++
      if allows [note] then [] else (note.strings "targets").map ClassName.ofDotted := by
  have remap : note.remap true = allows [note] := remap_allows note []
  rw [contextOf?, noted] at mixin
  cases mixin
  rw [← remap]

end

/-! Findings stay within the class that they are made for. -/

/-- A new name is for a member of the class, and a warning names the class. -/
def Finding.Within (className : String) : Finding → Prop
  | .entry _ _ => True
  | .rename _ member _ => member.owner = className
  | .warning reported => reported.className = className

namespace Scope

variable (scope : Scope)

@[simp]
theorem within_entry (className symbol value : String) :
    Finding.Within className (.entry symbol value) := trivial

@[simp]
theorem within_rename (kind : MemberKind) (name desc new : String) :
    Finding.Within scope.className (.rename kind ⟨scope.className, name, desc⟩ new) := rfl

@[simp]
theorem within_warn (label symbol : String) (reason : WarningReason) :
    (scope.warn label symbol reason).Within scope.className := rfl

@[simp]
theorem within_failure (label symbol : String) (failed : Resolution Located) :
    (scope.failure label symbol failed).Within scope.className := rfl

theorem within_foreign (label target : String) (owner : Option String) :
    ∀ finding ∈ (match owner with
      | some owner =>
          if owner ∈ scope.targets then [] else [scope.warn label target .foreignOwner]
      | none => [] : List Finding), finding.Within scope.className := by
  cases owner with
  | none => simp
  | some owner => by_cases ours : owner ∈ scope.targets <;> simp [ours]

theorem within_methodTarget (label target : String) :
    ∀ finding ∈ scope.methodTargetFindings label target, finding.Within scope.className := by
  unfold methodTargetFindings
  split
  · simp
  · dsimp only
    generalize WrittenMember.ofMethod (trimStars target) = reference
    split <;>
      exact List.forall_mem_append.mpr ⟨scope.within_foreign label target _, by simp⟩

theorem within_symbolFindings (symbol : Symbol) :
    ∀ finding ∈ scope.symbolFindings symbol, finding.Within scope.className := by
  cases symbol with
  | mixinTarget name =>
      simp only [symbolFindings, targetFinding]
      split <;> simp
  | methodTarget label target => exact scope.within_methodTarget label target
  | pointTarget label target =>
      simp only [symbolFindings, pointFindings]
      split
      · unfold pointMemberFinding
        split <;> simp
      · split <;> simp
      · unfold pointClassFinding
        dsimp only
        split
        · simp
        · split <;> simp
  | classArgument label argument =>
      simp only [symbolFindings, classArgumentFindings]
      split
      · simp
      · split
        · simp
        · split <;> simp
  | accessor names desc =>
      simp only [symbolFindings, accessorFindings]
      split
      · unfold capitalEntry
        split <;> simp
      · simp
  | invoker names desc =>
      simp only [symbolFindings, invokerFindings]
      split <;> simp
  | shadow kind name desc marker =>
      simp only [symbolFindings, shadowFinding]
      split <;> simp
  | overwrite name desc =>
      simp only [symbolFindings, overwriteFinding]
      split <;> simp

end Scope

namespace Hop

variable {hop : Hop} {nodes : List ClassNode} {node : ClassNode} {note : AnnotationNode}
  {work : MixinWork} {finding : Finding}

theorem within_class (found : finding ∈ hop.early work ∨ finding ∈ hop.late work) :
    finding.Within work.className := by
  obtain ⟨task, -, symbol, -, stands⟩ := mem_findings.mp found
  exact (hop.scopeFor work task).within_symbolFindings symbol finding stands

/-- A new name of a member is found by the context that is held under the name of its class. -/
theorem held_of_renames {kind : MemberKind} {ref : MemberRef} {new : String}
    (found : (hop.run nodes).renames.get? (kind, ref) = some new) :
    ∃ work, hop.held? nodes ref.owner = some work ∧ .rename kind ref new ∈ hop.early work := by
  obtain ⟨contexts, ahead, finished, run, -, member, -⟩ := hop.run_held nodes
  rw [run] at found
  rcases mem_of_get?_foldl_addRenames found with ⟨work, listed, early⟩ | none
  · have owner : ref.owner = work.className := within_class (.inl early)
    exact ⟨work, owner ▸ (member work).mp listed, early⟩
  · cases none

/-- A warning that is not about a missing listing is found by the context that is held under the
name of its class. -/
theorem held_of_notices {reported : Warning}
    (told : .symbol reported ∈ (hop.run nodes).notices) :
    reported.kind = .unlistedMixin ∨ ∃ work, hop.held? nodes reported.className = some work ∧
      (.warning reported ∈ hop.early work ∨ .warning reported ∈ hop.late work) := by
  obtain ⟨contexts, ahead, finished, run, -, early, late⟩ := hop.run_held nodes
  rw [run] at told
  simp only [List.mem_append, List.mem_flatMap, mem_noticesOf] at told
  rcases told with (⟨work, -, unlisted⟩ | ⟨work, listed, found⟩) | ⟨work, listed, found⟩
  · unfold listing at unlisted
    split at unlisted
    · cases unlisted
    · cases List.mem_singleton.mp unlisted
      exact .inl rfl
  · have name : reported.className = work.className := within_class (.inl found)
    exact .inr ⟨work, name ▸ (early work).mp listed, .inl found⟩
  · have name : reported.className = work.className := within_class (.inr found)
    exact .inr ⟨work, name ▸ (late work).mp listed, .inr found⟩

/-! A class that asks for nothing. -/

theorem findings_of_nothing (nothing : work.tasks = []) :
    finding ∉ hop.early work ∧ finding ∉ hop.late work := by
  rw [← not_or, mem_findings, nothing]
  rintro ⟨task, asked, -⟩
  exact List.not_mem_nil asked

theorem references_of_nothing (fresh : work.entries = .empty) (nothing : work.tasks = []) :
    (hop.references work).isEmpty = true := by
  refine Decidable.of_not_not fun filled => ?_
  obtain ⟨key, found⟩ := Dictionary.isEmpty_eq_false_iff.mp (Bool.not_eq_true _ ▸ filled)
  obtain ⟨value, early | late⟩ := (isSome_references fresh).mp found
  · exact (findings_of_nothing nothing).1 early
  · exact (findings_of_nothing nothing).2 late

/-- A class that asks for nothing leaves no trace in what comes out, but that nothing lists it. -/
theorem run_of_nothing {className : String} (held : hop.held? nodes className = some work)
    (nothing : work.tasks = []) :
    (∀ file, (hop.run nodes).refmaps.class? file className = none) ∧
    (∀ kind ref, ref.owner = className → (hop.run nodes).renames.get? (kind, ref) = none) ∧
    ∀ reported, .symbol reported ∈ (hop.run nodes).notices → reported.className = className →
      reported.kind = .unlistedMixin := by
  refine ⟨fun file => ?_, fun kind ref owner => ?_, fun reported told name => ?_⟩
  · obtain ⟨-, other, -, -, mixin⟩ := exists_of_held? held
    rw [class?_run_held, held, Option.bind_some, if_neg]
    rintro ⟨-, filled⟩
    rw [references_of_nothing (entries_of_contextOf? mixin) nothing] at filled
    cases filled
  · rw [Option.eq_none_iff_forall_ne_some]
    intro new found
    obtain ⟨other, same, early⟩ := held_of_renames found
    rw [owner, held] at same
    cases same
    exact (findings_of_nothing nothing).1 early
  · refine (held_of_notices told).resolve_right ?_
    rintro ⟨other, same, found⟩
    rw [name, held] at same
    cases same
    exact found.elim (findings_of_nothing nothing).1 (findings_of_nothing nothing).2

/-- The string targets of a mixin are targets of all that it asks for, whatever is renamed. -/
theorem strings_are_targets (noted : mixinNote? hop.registry node = some note)
    (mixin : contextOf? hop.registry node = some work) {name : String}
    (listed : name ∈ note.strings "targets") :
    ClassName.ofDotted name ∈ (hop.prepared work).targets := by
  rw [targets_prepared, mem_foldl_joinTarget]
  cases allowed : allows [note] with
  | false =>
      refine .inl ?_
      rw [targets_of_contextOf? noted mixin, allowed]
      exact List.mem_append_right _ (List.mem_map_of_mem listed)
  | true =>
      refine .inr (List.mem_map_of_mem ?_)
      have filled : (note.strings "targets").isEmpty = false :=
        List.isEmpty_eq_false_iff.mpr (List.ne_nil_of_mem listed)
      rw [MixinWork.stringTargets, tasks_of_contextOf? noted mixin, placesOf, List.flatMap_cons,
        Place.tasks, allowed, filled]
      exact List.mem_append_left _ listed

/-- A mixin class asks for what its places ask for where the innermost value of `remap` that is
written allows it, or where none is written, and for nothing else. Its string targets are among
its targets all the same. A class that allows nothing keeps them as they stand, and in a run that
holds its context it gets no references, no new names and no warnings but that nothing lists
it. -/
theorem consent_respected (hop : Hop) {node : ClassNode} {note : AnnotationNode}
    {work : MixinWork} (noted : mixinNote? hop.registry node = some note)
    (mixin : contextOf? hop.registry node = some work) :
    work.tasks = (placesOf hop.registry note node).flatMap (fun place =>
      if innermost? place.around = some false then [] else place.asks) ∧
    (∀ name ∈ note.strings "targets", ClassName.ofDotted name ∈ (hop.prepared work).targets) ∧
    ((∀ place ∈ placesOf hop.registry note node, place.asks ≠ [] →
        innermost? place.around = some false) →
      work.tasks = [] ∧
      (∀ name ∈ note.strings "targets", ClassName.ofDotted name ∈ work.targets) ∧
      ∀ before after,
        (∀ other ∈ after, other.name = node.name → contextOf? hop.registry other = none) →
        (∀ file,
          (hop.run (before ++ node :: after)).refmaps.class? file node.name = none) ∧
        (∀ kind ref, ref.owner = node.name →
          (hop.run (before ++ node :: after)).renames.get? (kind, ref) = none) ∧
        ∀ reported, .symbol reported ∈ (hop.run (before ++ node :: after)).notices →
          reported.className = node.name → reported.kind = .unlistedMixin) := by
  have tasks := tasks_of_contextOf? noted mixin
  refine ⟨?_, fun name => strings_are_targets noted mixin, fun forbidden => ?_⟩
  · rw [tasks]
    congr 1
    funext place
    rw [Place.tasks, allows]
    cases innermost? place.around with
    | none => rfl
    | some value => cases value <;> rfl
  · have nothing : work.tasks = [] := by
      rw [tasks, List.flatMap_eq_nil_iff]
      exact fun place listed => Place.tasks_eq_nil (forbidden place listed)
    refine ⟨nothing, fun name listed => ?_, fun before after last =>
      run_of_nothing (held?_of_last mixin last) nothing⟩
    have joined : ClassName.ofDotted name ∈ (hop.prepared work).targets :=
      strings_are_targets noted mixin listed
    rwa [targets_prepared, MixinWork.stringTargets, nothing] at joined

/-! A mixin that is not to be renamed, with an injector that has a point and a slice. Only the
slice says anything itself. -/

def forbiddingNote : AnnotationNode :=
  ⟨"Lorg/spongepowered/asm/mixin/Mixin;",
    [("targets", .array [.string "a.B"]), ("remap", .bool false)]⟩

def forbiddingMixin : ClassNode :=
  { name := "m/M", access := 0, superName := none, interfaces := []
    annotations := [forbiddingNote]
    fields := []
    methods := [⟨0, "onTick", "()V", [⟨"Lorg/spongepowered/asm/mixin/injection/Inject;",
      [("method", .array [.string "tick"]),
        ("at", .nested "Lorg/spongepowered/asm/mixin/injection/At;"
          [("target", .string "La/B;run()V")]),
        ("slice", .nested "Lorg/spongepowered/asm/mixin/injection/Slice;"
          [("remap", .bool false),
            ("to", .nested "Lorg/spongepowered/asm/mixin/injection/At;"
              [("target", .string "La/B;stop()V")])])]⟩]⟩] }

def forbiddingWork : MixinWork := ⟨"m/M", ["a/B"], [], .empty⟩

def forbiddingHop : Hop :=
  ⟨.standard false, .standard, .empty "refmap.json",
    ⟨.empty "official" "named", .ofNodes [forbiddingMixin]⟩⟩

theorem consent_respected_forbidding :
    (placesOf forbiddingHop.registry forbiddingNote forbiddingMixin).map (·.asks) =
      [[.mixinTargets ["a.B"]], [.methodTargets "@Inject" ["tick"]],
        [.injectionPoint "@At" (some "La/B;run()V") []],
        [.injectionPoint "@Slice" (some "La/B;stop()V") []]] ∧
    forbiddingWork.tasks = [] ∧
    (∀ name ∈ forbiddingNote.strings "targets",
      ClassName.ofDotted name ∈ forbiddingWork.targets) ∧
    ∀ before after,
      (∀ other ∈ after, other.name = forbiddingMixin.name →
        contextOf? forbiddingHop.registry other = none) →
      (∀ file, (forbiddingHop.run (before ++ forbiddingMixin :: after)).refmaps.class? file
        forbiddingMixin.name = none) ∧
      (∀ kind ref, ref.owner = forbiddingMixin.name →
        (forbiddingHop.run (before ++ forbiddingMixin :: after)).renames.get? (kind, ref) =
          none) ∧
      ∀ reported,
        .symbol reported ∈ (forbiddingHop.run (before ++ forbiddingMixin :: after)).notices →
        reported.className = forbiddingMixin.name → reported.kind = .unlistedMixin := by
  have whole := @consent_respected forbiddingHop forbiddingMixin forbiddingNote forbiddingWork
    rfl rfl
  exact ⟨by decide, whole.2.2 (by decide)⟩

end Hop

end ArchiveRemap.Mixin
