import ArchiveRemap.Proofs.Mixin.KnownMember
import ArchiveRemap.Proofs.Symbol.Reference

/-!
The references that a hop writes for members, as the next hop reads them. Accessors and invokers
have references without an owner, and so have injectors of a mixin with several targets. Such a
reference is misread when the new name of the member starts with an `L` and a class stands in its
descriptor.
-/

namespace ArchiveRemap.Mixin.Scope

open WrittenMember (ofText text ofText_text_iff)

variable {scope : Scope}

/-- A member with its new name and descriptor, behind the owner that is written for it. -/
def reference (scope : Scope) (kind : MemberKind) (owner : Option String) (member : MemberRef) :
    WrittenMember :=
  ⟨owner, scope.newName kind member, some (scope.renamer.mapDesc member.desc)⟩

theorem accessor_writes {names : List String} {desc key value : String}
    (found : .entry key value ∈ scope.accessorFindings names desc) :
    ∃ member, value = text .field (scope.reference .field none member) := by
  unfold accessorFindings at found
  dsimp only at found
  split at found
  · rename_i name located _
    refine ⟨located.member, ?_⟩
    have shown : value = scope.newName .field located.member ++ ":" ++
        scope.renamer.mapDesc located.member.desc := by
      rcases List.mem_append.mp found with capital | own
      · unfold capitalEntry at capital
        split at capital
        · cases List.mem_singleton.mp capital
          rfl
        · cases capital
      · cases List.mem_singleton.mp own
        rfl
    simp [shown, text, reference, WrittenMember.fieldText, WrittenMember.ownerText,
      String.append_assoc]
  · exact absurd (List.mem_singleton.mp found) (failure_ne_entry _ _ _ _ _)

/-- A constructor is written by its name alone. -/
theorem invoker_writes {names : List String} {desc key value : String}
    (found : .entry key value ∈ scope.invokerFindings names desc) :
    value = "<init>" ∨ ∃ member, value = text .method (scope.reference .method none member) := by
  unfold invokerFindings at found
  dsimp only at found
  split at found
  · rename_i name located _
    cases List.mem_singleton.mp found
    split
    · rename_i constructor
      exact .inl (by rw [constructor, String.append_empty])
    · refine .inr ⟨located.member, ?_⟩
      simp [text, reference, WrittenMember.methodText, WrittenMember.ownerText]
  · exact absurd (List.mem_singleton.mp found) (failure_ne_entry _ _ _ _ _)

/-- The owner that is written in front of a method. -/
def writtenOwner (scope : Scope) (owner : String) : Option String :=
  if 1 < scope.targets.length then none else some (scope.renamer.mapClass owner)

theorem ownerText_writtenOwner (scope : Scope) (owner : String) :
    WrittenMember.ownerText (scope.writtenOwner owner) = scope.ownerMark owner := by
  unfold writtenOwner ownerMark
  split <;> rfl

theorem methodTarget_writes {label target key value : String} (tame : isWild target = false)
    (found : .entry key value ∈ scope.methodTargetFindings label target) :
    ∃ owner member, value = text .method (scope.reference .method (scope.writtenOwner owner)
      member) := by
  obtain ⟨-, -, located, -, rfl⟩ := entry_mem_methodTargetFindings.mp found
  refine ⟨located.through, located.member, ?_⟩
  simp [methodValue, tame, text, reference, WrittenMember.methodText, ownerText_writtenOwner]

/-- A reference with a descriptor is read back as it was written exactly when it names its owner,
or its name does not start with an `L`, or no class stands in its descriptor. The references of
accessors, invokers and injectors are written in that form, the first two without an owner. -/
theorem references_read_back_iff {kind : MemberKind} {owner : Option String} {name desc : String}
    (unended : ∀ text ∈ owner, ';' ∉ text.toList) (named : name ≠ "")
    (plain : ∀ mark ∈ [';', ':', '(', '*'], mark ∉ name.toList)
    (opened : kind = .method → desc.toList.head? = some '(') :
    (ofText kind (text kind ⟨owner, name, some desc⟩) = ⟨owner, name, some desc⟩ ↔
      owner.isSome = true ∨ name.toList.head? ≠ some 'L' ∨ ';' ∉ desc.toList) ∧
    ∀ (scope : Scope) (key value : String),
      (∀ names desc, .entry key value ∈ scope.accessorFindings names desc →
        ∃ member, value = text .field (scope.reference .field none member)) ∧
      (∀ names desc, .entry key value ∈ scope.invokerFindings names desc →
        value = "<init>" ∨
          ∃ member, value = text .method (scope.reference .method none member)) ∧
      ∀ label target, isWild target = false →
        .entry key value ∈ scope.methodTargetFindings label target →
          ∃ owner member, value = text .method (scope.reference .method
            (scope.writtenOwner owner) member) := by
  constructor
  · exact ofText_text_iff unended named plain opened
  · intro scope key value
    exact ⟨fun _ _ => accessor_writes, fun _ _ => invoker_writes, fun _ _ => methodTarget_writes⟩

/-- A method with a class in its descriptor, and an accessor of the first hop. -/
theorem references_read_back_iff_bare :
    (ofText .method (text .method ⟨none, "load", some "(La;)V"⟩) =
        ⟨none, "load", some "(La;)V"⟩ ↔
      (none : Option String).isSome = true ∨ "load".toList.head? ≠ some 'L' ∨
        ';' ∉ "(La;)V".toList) ∧
    .entry "x" "y:I" ∈ (firstScope ["a"]).accessorFindings ["x"] "()I" ∧
    ∃ member, "y:I" = text .field ((firstScope ["a"]).reference .field none member) := by
  have found : .entry "x" "y:I" ∈ (firstScope ["a"]).accessorFindings ["x"] "()I" := by
    unfold accessorFindings find knownMember? lookup
    rw [resolve_firstScope]
    decide +kernel
  have read := @references_read_back_iff .method none "load" "(La;)V" nofun (by decide) (by simp)
    (fun _ => rfl)
  exact ⟨read.1, found, (read.2 _ _ _).1 _ _ found⟩

/-- A name with an `L` in front and a class behind it: up to the first `;` all is taken for the
owner. -/
theorem bare_reference_misread :
    ofText .method (text .method ⟨none, "Load", some "(La;)V"⟩) = ⟨some "oad(La", ")V", none⟩ ∧
      ofText .field (text .field ⟨none, "Level", some "La;"⟩) = ⟨some "evel:La", "", none⟩ := by
  decide

end ArchiveRemap.Mixin.Scope
