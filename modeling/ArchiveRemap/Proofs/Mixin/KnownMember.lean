import ArchiveRemap.Proofs.Hierarchy.Lookup
import ArchiveRemap.Proofs.Mixin.Reference
import ArchiveRemap.Proofs.Mixin.Symbols

/-!
Members that are known from an earlier hop. From the second hop on the annotations are still
in the first namespace, so what they name is not found, and the reference that the hop before
wrote is looked up in its place. It leads to the member that it names; but the owner of that
member is not always taken from it.
-/

namespace ArchiveRemap

theorem Resolution.found?_eq_some_iff {α : Type} {result : Resolution α} {value : α} :
    result.found? = some value ↔ result = .found value := by
  cases result <;> simp [Resolution.found?]

namespace Mixin

namespace Scope

variable {scope : Scope}

/-! Searches. -/

theorem found?_firstFound (attempts : List (Resolution Located)) :
    (firstFound attempts).found? = attempts.findSome? Resolution.found? := by
  unfold firstFound
  split
  · rename_i located found
    exact found.symm
  · rename_i missed
    rw [missed]
    split <;> rfl

/-- A search finds what the hop has, else what the known reference leads to. -/
theorem found?_find (query : MemberQuery) (mode : LookupMode) (owners : List String)
    (symbol : String) :
    (scope.find query mode owners symbol).found? =
      (owners.findSome? fun owner => (scope.lookup query mode owner).found?).or
        (scope.knownMember? query.kind owners symbol) := by
  have live : (firstFound (owners.map (scope.lookup query mode))).found? =
      owners.findSome? fun owner => (scope.lookup query mode owner).found? := by
    rw [found?_firstFound, List.findSome?_map]
    rfl
  rw [← live, find]
  split
  · rename_i located found
    rw [found]
    rfl
  · rename_i missed
    have none : (firstFound (owners.map (scope.lookup query mode))).found? = none := by
      cases same : firstFound (owners.map (scope.lookup query mode)) with
      | found located => exact absurd same (missed located)
      | ambiguous candidates => rfl
      | notFound => rfl
    rw [none, Option.none_or]
    split
    · rename_i located known
      rw [known]
      rfl
    · rename_i unknown
      rw [unknown, none]

/-- With a descriptor both modes of a lookup give the same. -/
theorem lookup_unique_of_desc {query : MemberQuery} {desc : String}
    (given : query.desc = some desc) (owner : String) :
    scope.lookup query .unique owner = scope.lookup query .first owner := by
  rw [lookup, lookup, Hierarchy.resolve_unique_of_desc _ given]

/-- The nearest member that fits a query, through owners in their order. -/
def nearest? (scope : Scope) (query : MemberQuery) (owners : List String) : Option Located :=
  owners.findSome? fun owner => (scope.lookup query .first owner).found?

/-! Two classes through two hops. -/

/-- One class with a field and a method, and a second class without members. -/
def pairRenamer (owner field method other : String × String) : Renamer :=
  ⟨⟨"source", "target",
      [(owner.1, ⟨owner.2, [⟨field.1, "I", field.2⟩], [⟨method.1, "()V", method.2⟩]⟩),
        (other.1, ⟨other.2, [], []⟩)]⟩,
    ⟨[(owner.1, ⟨owner.1, none, [], [⟨field.1, "I"⟩], [⟨method.1, "()V"⟩]⟩),
      (other.1, ⟨other.1, none, [], [], []⟩)]⟩⟩

def firstScope (targets : List String) : Scope :=
  ⟨"m/M", targets, none, pairRenamer ("a", "A") ("x", "y") ("d", "e") ("b", "B"), false⟩

/-- The hop after `firstScope`, which knows what that one wrote. -/
def secondScope (targets : List String) (known : List (String × String)) : Scope :=
  ⟨"m/M", targets, some (.ofList known),
    pairRenamer ("A", "First") ("y", "count") ("e", "tick") ("B", "Second"), false⟩

theorem parents_pair (owner field method other : String × String) (name : String) :
    (pairRenamer owner field method other).hierarchy.parents name = [] := by
  simp only [pairRenamer, Hierarchy.parents, Hierarchy.class?, Keyed.get?]
  by_cases first : owner.1 = name
  · rw [if_pos first]
    rfl
  · rw [if_neg first]
    by_cases second : other.1 = name
    · rw [if_pos second]
      rfl
    · rw [if_neg second]

theorem resolve_firstScope (targets : List String) :
    (firstScope targets).renamer.hierarchy.resolve = fun query owner _ mode =>
      (firstScope targets).renamer.hierarchy.resolve query owner false mode :=
  Hierarchy.resolve_eq_of_alone (parents_pair _ _ _ _)

theorem resolve_secondScope (targets : List String) (known : List (String × String)) :
    (secondScope targets known).renamer.hierarchy.resolve = fun query owner _ mode =>
      (secondScope targets known).renamer.hierarchy.resolve query owner false mode :=
  Hierarchy.resolve_eq_of_alone (parents_pair _ _ _ _)

/-! Method targets. -/

/-- The owners that a method target is looked up through: the one that it names, else all
targets of the mixin. -/
def methodOwners (scope : Scope) (target : String) : List String :=
  (methodReference target).owner.elim scope.targets ([·])

def methodMode (scope : Scope) (target : String) : LookupMode :=
  if isWild target || ((methodReference target).desc.isNone && scope.implicitWildcards) then .first
  else .unique

def methodQuery (target : String) : MemberQuery :=
  ⟨.method, (methodReference target).name, (methodReference target).desc⟩

theorem methodQuery_kind (target : String) : (methodQuery target).kind = .method := rfl

theorem methodQuery_desc (target : String) :
    (methodQuery target).desc = (methodReference target).desc := by
  rw [methodQuery]

/-- What a method target finds in the classes of the hop. -/
def liveMethod? (scope : Scope) (target : String) : Option Located :=
  (scope.methodOwners target).findSome? fun owner =>
    (scope.lookup (methodQuery target) (scope.methodMode target) owner).found?

/-- The reference for a method target. -/
def methodValue (scope : Scope) (wild : Bool) (located : Located) : String :=
  let name := scope.newName .method located.member
  let desc := if wild && name ≠ "<clinit>" then "*" else scope.renamer.mapDesc located.member.desc
  scope.ownerMark located.through ++ name ++ desc

theorem mode_irrelevant {target : String}
    (precise : (methodReference target).desc.isSome = true ∨ isWild target = true)
    (owner : String) :
    scope.lookup (methodQuery target) (scope.methodMode target) owner =
      scope.lookup (methodQuery target) .first owner := by
  unfold methodMode
  split
  · rfl
  · rename_i tame
    obtain ⟨desc, given⟩ := Option.isSome_iff_exists.mp
      (precise.resolve_right fun wild => tame (by rw [wild, Bool.true_or]))
    rw [← methodQuery_desc] at given
    exact lookup_unique_of_desc given owner

theorem liveMethod?_eq {target : String}
    (precise : (methodReference target).desc.isSome = true ∨ isWild target = true) :
    scope.liveMethod? target = scope.nearest? (methodQuery target) (scope.methodOwners target) := by
  unfold liveMethod? nearest?
  simp only [mode_irrelevant precise]

/-- A known reference is looked up through the owner that it names, else through those of the
symbol. -/
theorem knownMember?_method {symbol known : String} (earlier : scope.known? symbol = some known)
    (owners : List String) :
    scope.knownMember? .method owners symbol =
      scope.nearest? (methodQuery known) ((methodReference known).owner.elim owners ([·])) := by
  unfold knownMember?
  rw [earlier]
  simp only [Option.bind_eq_bind, Option.bind_some]
  unfold nearest? methodQuery methodReference
  generalize WrittenMember.ofMethod (trimStars known) = reference
  obtain ⟨owner | owner, name, desc⟩ := reference <;> rfl

/-- What is found for a method target: what its search comes to, and perhaps a warning about
its owner in front. -/
theorem methodTargetFindings_eq (scope : Scope) (label : String) {target : String}
    (named : isInitializer target = false) :
    ∃ foreign, (∀ key value, Finding.entry key value ∉ foreign) ∧
      scope.methodTargetFindings label target = foreign ++
        [match scope.find (methodQuery target) (scope.methodMode target)
            (scope.methodOwners target) target with
          | .found located => .entry target (scope.methodValue (isWild target) located)
          | failed => scope.failure label target failed] := by
  refine ⟨_, @unkeyed_foreign scope label target (methodReference target).owner, ?_⟩
  unfold methodTargetFindings methodQuery methodMode methodOwners methodReference methodValue
    isWild
  rw [if_neg (by simp [named])]
  dsimp only
  generalize WrittenMember.ofMethod (trimStars target) = reference
  obtain ⟨owner | owner, name, desc⟩ := reference
  · dsimp only [Option.elim]
    generalize scope.find _ _ _ target = result
    cases result <;> rfl
  · dsimp only [Option.elim]
    generalize scope.find _ _ _ target = result
    cases result <;> rfl

theorem entry_mem_methodTargetFindings {label target key value : String} :
    Finding.entry key value ∈ scope.methodTargetFindings label target ↔
      isInitializer target = false ∧ key = target ∧ ∃ located,
        (scope.find (methodQuery target) (scope.methodMode target) (scope.methodOwners target)
          target).found? = some located ∧ scope.methodValue (isWild target) located = value := by
  cases initializer : isInitializer target with
  | true => simp [methodTargetFindings_of_initializer scope initializer]
  | false =>
      obtain ⟨foreign, unkeyed, same⟩ := scope.methodTargetFindings_eq label initializer
      rw [same, List.mem_append, or_iff_right (unkeyed key value), List.mem_singleton]
      split
      · rename_i located found
        simp only [found, true_and, Finding.entry.injEq, Resolution.found?, Option.some.injEq,
          exists_eq_left']
        exact and_congr_right fun _ => eq_comm
      · rename_i failed
        constructor
        · exact fun entry => absurd entry (failure_ne_entry label target key value _)
        · rintro ⟨-, -, located, found, -⟩
          exact absurd (Resolution.found?_eq_some_iff.mp found) (failed located)

/-- A method target that is not found in the hop, while an earlier hop knew it by a reference
that is. It comes to what that reference comes to, exactly when it does not stand in the way
with an owner of its own: the reference names its owner or the target names none. Else the
reference is looked up through the owner of the target. -/
theorem method_reference_carried_iff {label symbol known value : String}
    (named : isInitializer symbol = false) (missed : scope.liveMethod? symbol = none)
    (earlier : scope.known? symbol = some known) (stars : isWild symbol = isWild known)
    (precise : (methodReference known).desc.isSome = true ∨ isWild known = true)
    (live : (scope.liveMethod? known).isSome = true)
    (written : Finding.entry known value ∈ scope.methodTargetFindings label known) :
    Finding.entry symbol value ∈ scope.methodTargetFindings label symbol ↔
      (methodReference symbol).owner = none ∨ (methodReference known).owner.isSome = true ∨
        ∃ owner located, (methodReference symbol).owner = some owner ∧
          scope.lookup (methodQuery known) .first owner = .found located ∧
            scope.methodValue (isWild known) located = value := by
  -- Under the reference the hop writes what it finds without any help from an earlier hop.
  obtain ⟨-, -, there, searched, rfl⟩ := entry_mem_methodTargetFindings.mp written
  have found : scope.liveMethod? known = some there := by
    obtain ⟨other, found⟩ := Option.isSome_iff_exists.mp live
    rw [found?_find, ← liveMethod?, found, Option.some_or] at searched
    rw [found, searched]
  rw [liveMethod?_eq precise] at found
  -- Under the symbol it has nothing of its own, so the search ends in the known reference.
  rw [entry_mem_methodTargetFindings, found?_find, ← liveMethod?, missed, Option.none_or, stars,
    methodQuery_kind, knownMember?_method earlier, eq_true named, true_and, eq_self, true_and]
  rw [methodOwners] at found ⊢
  -- Now only the owners differ: a reference without one takes those of the symbol.
  cases foreign : (methodReference known).owner with
  | some owner =>
      rw [foreign] at found
      simp only [Option.elim_some, Option.isSome_some, true_or, or_true, iff_true]
      exact ⟨there, found, rfl⟩
  | none =>
      rw [foreign] at found
      cases named : (methodReference symbol).owner with
      | none =>
          simp only [Option.elim_none, true_or, iff_true]
          exact ⟨there, found, rfl⟩
      | some owner =>
          simp [nearest?, Resolution.found?_eq_some_iff]

/-- The reference of a mixin with two targets has no owner. A target without one is carried. -/
theorem method_reference_carried_iff_bare :
    Finding.entry "d" "tick()V" ∈
        (secondScope ["A", "B"] [("d", "e()V")]).methodTargetFindings "@Inject" "d" ↔
      (methodReference "d").owner = none ∨ (methodReference "e()V").owner.isSome = true ∨
        ∃ owner located, (methodReference "d").owner = some owner ∧
          (secondScope ["A", "B"] [("d", "e()V")]).lookup (methodQuery "e()V") .first owner =
              .found located ∧
            (secondScope ["A", "B"] [("d", "e()V")]).methodValue (isWild "e()V") located =
              "tick()V" := by
  have missed : (secondScope ["A", "B"] [("d", "e()V")]).liveMethod? "d" = none := by
    unfold liveMethod? lookup
    rw [resolve_secondScope]
    decide +kernel
  have live : ((secondScope ["A", "B"] [("d", "e()V")]).liveMethod? "e()V").isSome = true := by
    unfold liveMethod? lookup
    rw [resolve_secondScope]
    decide +kernel
  have written : (secondScope ["A", "B"] [("d", "e()V")]).methodTargetFindings "@Inject" "e()V" =
      [.entry "e()V" "tick()V"] := by
    unfold methodTargetFindings find knownMember? lookup
    rw [resolve_secondScope]
    decide +kernel
  exact method_reference_carried_iff (by decide) missed (by decide) (by decide)
    (.inl (by decide)) live (written ▸ List.mem_singleton_self _)

/-- With its owner the same target is lost: the owner is one of the first namespace, and the
reference is looked up there. -/
theorem method_reference_lost_behind_owner :
    (firstScope ["a", "b"]).methodTargetFindings "@Inject" "La;d()V" =
        [.entry "La;d()V" "e()V"] ∧
      (secondScope ["A", "B"] [("La;d()V", "e()V")]).methodTargetFindings "@Inject" "e()V" =
        [.entry "e()V" "tick()V"] ∧
      (secondScope ["A", "B"] [("La;d()V", "e()V")]).methodTargetFindings "@Inject" "La;d()V" =
        [.warning ⟨"m/M", "@Inject", "La;d()V", .foreignOwner⟩,
          .warning ⟨"m/M", "@Inject", "La;d()V", .unresolved⟩] := by
  unfold methodTargetFindings find knownMember? lookup
  rw [resolve_firstScope, resolve_secondScope]
  decide +kernel

/-! Injection points. -/

/-- What is found for the target of an injection point that is a member. -/
theorem pointFindings_of_found {label target owner name desc through : String}
    {kind : MemberKind} {member : MemberRef}
    (shape : PointTarget.ofText target = .member kind owner name desc)
    (found : (scope.find ⟨kind, name, some desc⟩ .unique [owner] target).found? =
      some ⟨through, member⟩) :
    scope.pointFindings label target =
      [.entry target (scope.memberValue kind owner member)] := by
  rw [Resolution.found?_eq_some_iff] at found
  unfold pointFindings
  rw [shape]
  dsimp only
  rw [pointMemberFinding, found]

/-- A known reference in full is looked up through its own owner. -/
theorem knownMember?_full {kind : MemberKind} {symbol known owner name desc : String}
    (earlier : scope.known? symbol = some known)
    (full : FullReference kind known owner name desc) (owners : List String) :
    scope.knownMember? kind owners symbol =
      (scope.lookup ⟨kind, name, some desc⟩ .unique owner).found? := by
  have given : (MemberQuery.mk kind name (some desc)).desc = some desc := rfl
  rw [lookup_unique_of_desc given]
  cases kind with
  | method =>
      rw [knownMember?_method earlier, methodQuery, full.read_method]
      simp [nearest?]
  | field =>
      unfold knownMember?
      rw [earlier]
      simp only [Option.bind_eq_bind, Option.bind_some, full.read_field]
      simp

/-- A member that an injection point names and that is not found in the hop, while an earlier
hop knew it by a reference in full that is. The name and the descriptor come from the member
that the reference leads to, the owner is the one that the target names, mapped as it stands.
So the value is that of the reference exactly when the table gives both owners one name. -/
theorem point_reference_carried_iff {label symbol known : String} {kind : MemberKind}
    {owner name desc knownOwner knownName knownDesc through : String} {member : MemberRef}
    (shape : PointTarget.ofText symbol = .member kind owner name desc)
    (missed : scope.lookup ⟨kind, name, some desc⟩ .unique owner = .notFound)
    (earlier : scope.known? symbol = some known)
    (full : FullReference kind known knownOwner knownName knownDesc)
    (live : scope.lookup ⟨kind, knownName, some knownDesc⟩ .unique knownOwner =
      .found ⟨through, member⟩) :
    scope.pointFindings label known = [.entry known (scope.memberValue kind knownOwner member)] ∧
      scope.pointFindings label symbol = [.entry symbol (scope.memberValue kind owner member)] ∧
      (scope.memberValue kind owner member = scope.memberValue kind knownOwner member ↔
        scope.renamer.mapClass owner = scope.renamer.mapClass knownOwner) := by
  have direct : (scope.find ⟨kind, knownName, some knownDesc⟩ .unique [knownOwner] known).found? =
      some ⟨through, member⟩ := by
    rw [found?_find]
    simp [live, Resolution.found?]
  have carried : (scope.find ⟨kind, name, some desc⟩ .unique [owner] symbol).found? =
      some ⟨through, member⟩ := by
    rw [found?_find, knownMember?_full earlier full]
    simp [missed, live, Resolution.found?]
  refine ⟨pointFindings_of_found full.shape direct, pointFindings_of_found shape carried, ?_⟩
  simp [memberValue, String.append_assoc, String.append_left_inj, String.append_right_inj]

/-- A field with an older name of its own, in a class that kept its name. -/
theorem point_reference_carried_iff_field :
    (secondScope ["A"] [("LA;x:I", "LA;y:I")]).pointFindings "@At" "LA;y:I" =
        [.entry "LA;y:I" ((secondScope ["A"] [("LA;x:I", "LA;y:I")]).memberValue .field "A"
          ⟨"A", "y", "I"⟩)] ∧
      (secondScope ["A"] [("LA;x:I", "LA;y:I")]).pointFindings "@At" "LA;x:I" =
        [.entry "LA;x:I" ((secondScope ["A"] [("LA;x:I", "LA;y:I")]).memberValue .field "A"
          ⟨"A", "y", "I"⟩)] ∧
      ((secondScope ["A"] [("LA;x:I", "LA;y:I")]).memberValue .field "A" ⟨"A", "y", "I"⟩ =
          (secondScope ["A"] [("LA;x:I", "LA;y:I")]).memberValue .field "A" ⟨"A", "y", "I"⟩ ↔
        (secondScope ["A"] [("LA;x:I", "LA;y:I")]).renamer.mapClass "A" =
          (secondScope ["A"] [("LA;x:I", "LA;y:I")]).renamer.mapClass "A") := by
  have missed : (secondScope ["A"] [("LA;x:I", "LA;y:I")]).lookup ⟨.field, "x", some "I"⟩ .unique
      "A" = .notFound := by
    unfold lookup
    rw [resolve_secondScope]
    decide
  have full : FullReference .field "LA;y:I" "A" "y" "I" := ⟨by decide, by decide, nofun⟩
  have live : (secondScope ["A"] [("LA;x:I", "LA;y:I")]).lookup ⟨.field, "y", some "I"⟩ .unique
      "A" = .found ⟨"A", "A", "y", "I"⟩ := by
    unfold lookup
    rw [resolve_secondScope]
    decide
  exact point_reference_carried_iff (by decide) missed (by decide) full live

/-- The class of the target went by another name in the first namespace. The reference has
the owner of that time in front of the new name of the member. -/
theorem point_reference_keeps_old_owner :
    (firstScope ["a"]).pointFindings "@At" "La;d()V" = [.entry "La;d()V" "LA;e()V"] ∧
      (secondScope ["A"] [("La;d()V", "LA;e()V")]).pointFindings "@At" "LA;e()V" =
        [.entry "LA;e()V" "LFirst;tick()V"] ∧
      (secondScope ["A"] [("La;d()V", "LA;e()V")]).pointFindings "@At" "La;d()V" =
        [.entry "La;d()V" "La;tick()V"] ∧
    (firstScope ["a"]).pointFindings "@At" "La;x:I" = [.entry "La;x:I" "LA;y:I"] ∧
      (secondScope ["A"] [("La;x:I", "LA;y:I")]).pointFindings "@At" "LA;y:I" =
        [.entry "LA;y:I" "LFirst;count:I"] ∧
      (secondScope ["A"] [("La;x:I", "LA;y:I")]).pointFindings "@At" "La;x:I" =
        [.entry "La;x:I" "La;count:I"] := by
  unfold pointFindings pointMemberFinding find knownMember? lookup
  rw [resolve_firstScope, resolve_secondScope ["A"] [("La;d()V", "LA;e()V")],
    resolve_secondScope ["A"] [("La;x:I", "LA;y:I")]]
  decide +kernel

end Scope

end Mixin

end ArchiveRemap
