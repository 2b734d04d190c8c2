import ArchiveRemap.Proofs.Mixin.KnownMember
import ArchiveRemap.Proofs.Mixin.PointTarget

/-!
The two spellings of a member that an injection point names, as a hop resolves them. They come
to the same only for a class outside of all packages.
-/

namespace ArchiveRemap.Mixin

/-- What is found for a symbol, whatever the symbol is. -/
def Finding.outcome : Finding → Except WarningReason String
  | .entry _ value => .ok value
  | .rename _ _ name => .ok name
  | .warning reported => .error reported.kind

namespace Scope

variable {scope : Scope}

theorem find_of_unknown {symbol : String} (unknown : scope.known? symbol = none)
    (query : MemberQuery) (mode : LookupMode) (owners : List String) :
    scope.find query mode owners symbol = firstFound (owners.map (scope.lookup query mode)) := by
  have earlier : scope.knownMember? query.kind owners symbol = none := by
    rw [knownMember?, unknown]
    rfl
  rw [find, earlier]
  split
  · rename_i located found
    exact found.symm
  · rfl

/-- What is found for a member does not depend on how it is spelled. -/
theorem outcome_pointMember {target other : String} (unknown : scope.known? target = none)
    (unknownOther : scope.known? other = none) (label : String) (kind : MemberKind)
    (owner name desc : String) :
    (scope.pointMemberFinding label target kind owner name desc).outcome =
      (scope.pointMemberFinding label other kind owner name desc).outcome := by
  simp only [pointMemberFinding, find_of_unknown unknown, find_of_unknown unknownOther]
  split
  · rfl
  · unfold failure
    split <;> rfl

theorem isInternal_of_marked {name : String} {kind : MemberKind}
    (marked : PointTarget.markOf kind ∈ name.toList) : ClassName.isInternal name = false := by
  have strange : ClassName.isNameCharacter (PointTarget.markOf kind) = false := by
    cases kind <;> decide +kernel
  have all : name.toList.all ClassName.isNameCharacter = false :=
    List.all_eq_false.mpr ⟨_, marked, by simp [strange]⟩
  simp [ClassName.isInternal, all]

theorem mem_pointClass {mark : Char} {target : String}
    (apart : ∀ c ∈ ['L', ';', '.'], mark ≠ c) (inside : mark ∈ target.toList) :
    mark ∈ (pointClass target).1.toList := by
  have swapped : ∀ text : String, mark ∈ text.toList → mark ∈ (ClassName.ofDotted text).toList := by
    intro text there
    rw [ClassName.ofDotted, String.toList_ofList, Text.swap, List.mem_map]
    exact ⟨mark, there, if_neg (apart '.' (by decide))⟩
  unfold pointClass
  split
  · rename_i name object
    refine swapped name ?_
    rw [Descriptor.objectType?, Option.bind_eq_bind, Option.bind_eq_some_iff] at object
    obtain ⟨body, head, tail⟩ := object
    rw [Option.bind_eq_some_iff] at tail
    obtain ⟨front, before, same⟩ := tail
    cases same
    rw [Text.dropHead?_eq_some_iff] at head
    rw [Text.dropTail?_eq_some_iff] at before
    rw [head, before] at inside
    simpa [apart 'L', apart ';'] using inside
  · exact swapped target inside

/-- What looks like a member but is read as none is not found as a class. -/
theorem pointFindings_of_marked {target : String} {kind : MemberKind}
    (unread : PointTarget.ofText target = .other)
    (marked : PointTarget.markOf kind ∈ target.toList) (unknown : scope.known? target = none)
    (label : String) :
    scope.pointFindings label target = [scope.warn label target .unresolved] := by
  have apart : ∀ c ∈ ['L', ';', '.'], PointTarget.markOf kind ≠ c := by
    cases kind <;> simp [PointTarget.markOf]
  simp [pointFindings, unread, pointClassFinding,
    isInternal_of_marked (mem_pointClass apart marked), unknown]

end Scope

namespace QualifiedMember

variable {member : QualifiedMember}

/-! A hop that knows the class of the member and no other. -/

def shape (member : QualifiedMember) : ClassShape :=
  match member.kind with
  | .field => ⟨member.owner, none, [], [⟨member.name, member.desc⟩], []⟩
  | .method => ⟨member.owner, none, [], [], [⟨member.name, member.desc⟩]⟩

def loneScope (member : QualifiedMember) : Scope :=
  ⟨"M", [], none, ⟨.empty "source" "target", ⟨[(member.owner, member.shape)]⟩⟩, false⟩

theorem resolve_loneScope (query : MemberQuery) (owner : String) (mode : LookupMode) :
    member.loneScope.renamer.hierarchy.resolve query owner true mode =
      member.loneScope.renamer.hierarchy.resolve query owner false mode := by
  refine Hierarchy.resolve_of_alone ?_ query mode
  unfold Hierarchy.parents
  split
  · rename_i info found
    cases List.mem_singleton.mp (Keyed.mem_of_get? found)
    rw [shape]
    split <;> rfl
  · rfl

theorem lookup_loneScope (mode : LookupMode) :
    member.loneScope.lookup ⟨member.kind, member.name, some member.desc⟩ mode member.owner =
      .found ⟨member.owner, member.owner, member.name, member.desc⟩ := by
  rw [Scope.lookup, resolve_loneScope]
  obtain ⟨kind, segments, name, desc⟩ := member
  cases kind <;> cases mode <;>
    simp [loneScope, shape, Hierarchy.resolve, Hierarchy.searched, Hierarchy.knows,
      Hierarchy.class?, Hierarchy.declared, ClassShape.members, Keyed.get?, MemberQuery.matches,
      distinctSignatures]

theorem lookup_loneScope_of_other {owner : String} (apart : owner ≠ member.owner)
    (query : MemberQuery) (mode : LookupMode) :
    member.loneScope.lookup query mode owner = .notFound := by
  rw [Scope.lookup, resolve_loneScope]
  cases mode <;>
    simp [loneScope, Hierarchy.resolve, Hierarchy.searched, Hierarchy.knows, Hierarchy.class?,
      Keyed.get?, apart.symm, distinctSignatures]

/-- The two spellings of a member are read as one in every hop that knows a reference for
neither. -/
def Alike (member : QualifiedMember) : Prop :=
  ∀ (scope : Scope) (label : String), scope.known? member.dottedForm = none →
    scope.known? member.objectForm = none →
      (scope.pointFindings label member.dottedForm).map Finding.outcome =
        (scope.pointFindings label member.objectForm).map Finding.outcome

/-- Where the dotted form leads to another class, the hop of the class itself tells them
apart. -/
theorem not_alike_of_other {owner name : String} (apart : owner ≠ member.owner)
    (object : PointTarget.ofText member.objectForm =
      .member member.kind member.owner member.name member.desc)
    (dotted : PointTarget.ofText member.dottedForm = .member member.kind owner name member.desc) :
    ¬member.Alike := by
  intro alike
  have unknown : ∀ symbol, member.loneScope.known? symbol = none := fun _ => rfl
  have same := alike member.loneScope "@At" (unknown _) (unknown _)
  simp only [Scope.pointFindings, object, dotted, Scope.pointMemberFinding,
    Scope.find_of_unknown (unknown _), List.map_cons, List.map_nil,
    lookup_loneScope_of_other apart, lookup_loneScope] at same
  cases same

namespace Plain

variable (plain : member.Plain)
include plain

theorem alike_of_broken (broken : '\n' ∈ member.body) : member.Alike := by
  intro scope label unknownDotted unknownObject
  obtain ⟨first, more, split⟩ := List.exists_cons_of_ne_nil plain.packaged
  have dotted := plain.ofText_dottedForm split (.inr broken)
  have object := plain.ofText_objectForm
  rw [if_pos broken] at dotted object
  have markDotted : PointTarget.markOf member.kind ∈ member.dottedForm.toList := by
    simp [plain.toList_dottedForm split]
  have markObject : PointTarget.markOf member.kind ∈ member.objectForm.toList := by
    simp [plain.toList_objectForm]
  rw [Scope.pointFindings_of_marked dotted markDotted unknownDotted,
    Scope.pointFindings_of_marked object markObject unknownObject]
  rfl

theorem alike_of_single {first : String} (split : member.segments = [first])
    (straight : ¬member.Misleading) : member.Alike := by
  by_cases broken : '\n' ∈ member.body
  · exact plain.alike_of_broken broken
  intro scope label unknownDotted unknownObject
  have dotted := plain.ofText_dottedForm split (.inl straight)
  have object := plain.ofText_objectForm
  have owner : member.owner = first := by
    rw [QualifiedMember.owner, split, String.intercalate_singleton]
  rw [if_neg broken] at dotted object
  rw [packages, List.flatMap_nil, List.nil_append, plain.nameOf_name] at dotted
  rw [Scope.pointFindings, Scope.pointFindings, dotted, object, owner]
  simp only [List.map_cons, List.map_nil]
  rw [Scope.outcome_pointMember unknownDotted unknownObject]

theorem not_alike (whole : '\n' ∉ member.body)
    (parted : member.segments.length ≠ 1 ∨ member.Misleading) : ¬member.Alike := by
  obtain ⟨first, more, split⟩ := List.exists_cons_of_ne_nil plain.packaged
  have object := plain.ofText_objectForm
  rw [if_neg whole] at object
  by_cases misleading : member.Misleading
  · obtain ⟨owner, name, dot, dotted⟩ :=
      plain.ofText_dottedForm_of_misleading split misleading whole
    refine not_alike_of_other ?_ object dotted
    rintro rfl
    exact plain.not_mem_owner (by decide) (by decide) dot
  · have dotted := plain.ofText_dottedForm split (.inl misleading)
    rw [if_neg whole] at dotted
    refine not_alike_of_other ?_ object dotted
    -- An owner of several segments has a `/` between them, the first segment has none.
    rintro rfl
    have several : more ≠ [] := by
      rintro rfl
      exact (parted.resolve_right misleading) (by rw [split]; rfl)
    have slash : '/' ∈ member.owner.toList := by
      rw [owner, split, String.intercalate_cons_of_ne_nil several]
      simp
    exact plain.first_free split (by decide) slash

end Plain

/-- For names of classes and members, the two spellings of an injection point agree in every
hop exactly when the descriptor runs over more than one line or the class is outside of all
packages and its name does not mislead. -/
theorem spellings_agree_iff (plain : member.Plain) :
    member.Alike ↔ '\n' ∈ member.desc.toList ∨
      (member.segments.length = 1 ∧ ¬member.Misleading) := by
  rw [← plain.feed_mem_body]
  constructor
  · intro alike
    by_contra neither
    rw [not_or, not_and_or, not_not] at neither
    exact plain.not_alike neither.1 neither.2 alike
  · rintro (broken | ⟨single, straight⟩)
    · exact plain.alike_of_broken broken
    · obtain ⟨first, split⟩ := List.length_eq_one_iff.mp single
      exact plain.alike_of_single split straight

/-- A class in a package. -/
theorem spellings_agree_iff_packaged :
    (⟨.method, ["a", "B"], "d", "()V"⟩ : QualifiedMember).Alike ↔
      '\n' ∈ "()V".toList ∨ (["a", "B"].length = 1 ∧
        ¬(⟨.method, ["a", "B"], "d", "()V"⟩ : QualifiedMember).Misleading) := by
  have plain : (⟨.method, ["a", "B"], "d", "()V"⟩ : QualifiedMember).Plain := {
    packaged := nofun
    segments := by simp
    named := by decide
    name := by simp
    dense := by simp [Text.isBlank]
    opened := fun _ => rfl
    described := by decide
    desc := by simp [body] }
  exact spellings_agree_iff plain

/-- A hop with a class in a package. -/
def packagedScope : Scope :=
  ⟨"m/M", ["a/B"], none, Scope.pairRenamer ("a/B", "x/Y") ("x", "y") ("d", "e") ("b", "C"), false⟩

/-- Its method and its field are found in the one spelling and not in the other. -/
theorem spellings_disagree :
    packagedScope.pointFindings "@At" "La/B;d()V" = [.entry "La/B;d()V" "Lx/Y;e()V"] ∧
      packagedScope.pointFindings "@At" "a.B.d()V" =
        [packagedScope.warn "@At" "a.B.d()V" .unresolved] ∧
      packagedScope.pointFindings "@At" "La/B;x:I" = [.entry "La/B;x:I" "Lx/Y;y:I"] ∧
      packagedScope.pointFindings "@At" "a.B.x:I" =
        [packagedScope.warn "@At" "a.B.x:I" .unresolved] := by
  have stays : packagedScope.renamer.hierarchy.resolve = fun query owner _ mode =>
      packagedScope.renamer.hierarchy.resolve query owner false mode :=
    Hierarchy.resolve_eq_of_alone (Scope.parents_pair _ _ _ _)
  unfold Scope.pointFindings Scope.pointMemberFinding Scope.find Scope.knownMember? Scope.lookup
  rw [stays]
  decide +kernel

end QualifiedMember

end ArchiveRemap.Mixin
