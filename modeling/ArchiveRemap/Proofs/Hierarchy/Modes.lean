import ArchiveRemap.Proofs.Hierarchy.Lookup
import Mathlib.Data.List.Basic

/-!
The two modes of a look-up side by side. What both choose from are the signatures that the
searched classes declare, each with the nearest class that declares it. The one mode takes the
first of these members, the other insists that there is no second.
-/

namespace ArchiveRemap

/-- A signature with the name of a query, and with its descriptor if it has one. -/
def MemberQuery.Asks (query : MemberQuery) (signature : Signature) : Prop :=
  signature.name = query.name ∧ ∀ desc, query.desc = some desc → signature.desc = desc

theorem MemberQuery.matches_iff {query : MemberQuery} {signature : Signature} :
    query.matches signature = true ↔ query.Asks signature := by
  obtain ⟨kind, name, desc⟩ := query
  cases desc <;> simp [MemberQuery.matches, Asks]

theorem MemberRef.eq_of_signature {left right : MemberRef} (owner : left.owner = right.owner)
    (same : left.signature = right.signature) : left = right := by
  obtain ⟨leftOwner, leftName, leftDesc⟩ := left
  obtain ⟨rightOwner, rightName, rightDesc⟩ := right
  simp only [signature, Signature.mk.injEq] at same
  obtain ⟨rfl, rfl⟩ := same
  exact congrArg (MemberRef.mk · _ _) owner

/-! One member of each signature. -/

/-- The signature of a member leads to a member with this signature. -/
theorem exists_find?_signature {member : MemberRef} {members : List MemberRef}
    (listed : member ∈ members) : ∃ first,
      members.find? (fun other => other.signature = member.signature) = some first ∧
        first.signature = member.signature := by
  have there : (members.find? fun other => other.signature = member.signature).isSome := by
    rw [List.find?_isSome]
    exact ⟨member, listed, decide_eq_true rfl⟩
  obtain ⟨first, found⟩ := Option.isSome_iff_exists.mp there
  exact ⟨first, found, by simpa using List.find?_some found⟩

theorem mem_distinctSignatures {member : MemberRef} {seen : List Signature}
    {members : List MemberRef} : member ∈ distinctSignatures seen members ↔
      member.signature ∉ seen ∧
        members.find? (fun other => other.signature = member.signature) = some member := by
  induction members generalizing seen with
  | nil => simp [distinctSignatures]
  | cons other rest ih =>
      rw [distinctSignatures, List.find?_cons]
      by_cases same : other.signature = member.signature
      · by_cases known : other.signature ∈ seen
        · simp [ih, known, ← same]
        · simp [ih, known, ← same, eq_comm]
      · have apart : member ≠ other := fun equal => same (equal ▸ rfl)
        by_cases known : other.signature ∈ seen
        · simp [ih, known, same]
        · simp [ih, known, same, apart, Ne.symm same]

theorem nodup_distinctSignatures (seen : List Signature) (members : List MemberRef) :
    ((distinctSignatures seen members).map MemberRef.signature).Nodup := by
  induction members generalizing seen with
  | nil => exact List.nodup_nil
  | cons member rest ih =>
      rw [distinctSignatures]
      split
      · exact ih seen
      · refine List.nodup_cons.mpr ⟨fun again => ?_, ih _⟩
        obtain ⟨other, listed, same⟩ := List.mem_map.mp again
        exact (mem_distinctSignatures.mp listed).1 (same ▸ List.mem_cons_self)

namespace Hierarchy

variable {hierarchy : Hierarchy} {query : MemberQuery} {place owner : String} {recursive : Bool}
  {member : MemberRef} {signature : Signature}

/-- A class declares a signature that a query asks for. -/
def Declares (hierarchy : Hierarchy) (query : MemberQuery) (place : String)
    (signature : Signature) : Prop :=
  query.Asks signature ∧
    ∃ info, hierarchy.class? place = some info ∧ signature ∈ info.members query.kind

/-- Some class of a search declares a signature that the query asks for. -/
def Offers (hierarchy : Hierarchy) (query : MemberQuery) (owner : String) (recursive : Bool)
    (signature : Signature) : Prop :=
  ∃ place ∈ hierarchy.searched owner recursive, hierarchy.Declares query place signature

/-- A member whose owner is the earliest class of a search to declare its signature. -/
def Nearest (hierarchy : Hierarchy) (query : MemberQuery) (owner : String) (recursive : Bool)
    (member : MemberRef) : Prop :=
  ∃ before after, hierarchy.searched owner recursive = before ++ member.owner :: after ∧
    hierarchy.Declares query member.owner member.signature ∧
      ∀ place ∈ before, ¬hierarchy.Declares query place member.signature

/-- Every signature that a search offers, once, with the earliest class that declares it. -/
structure IsChoice (hierarchy : Hierarchy) (query : MemberQuery) (owner : String)
    (recursive : Bool) (members : List MemberRef) : Prop where
  once : (members.map MemberRef.signature).Nodup
  covers : ∀ signature, signature ∈ members.map MemberRef.signature ↔
    hierarchy.Offers query owner recursive signature
  nearest : ∀ member ∈ members, hierarchy.Nearest query owner recursive member

theorem mem_declared_iff : member ∈ hierarchy.declared query place ↔
    member.owner = place ∧ hierarchy.Declares query place member.signature := by
  unfold declared Declares
  cases known : hierarchy.class? place with
  | none => simp
  | some info =>
      simp only [List.mem_map, List.mem_filter, MemberQuery.matches_iff, Option.some.injEq,
        exists_eq_left']
      constructor
      · rintro ⟨signature, ⟨listed, asked⟩, rfl⟩
        exact ⟨rfl, asked, listed⟩
      · rintro ⟨rfl, asked, listed⟩
        exact ⟨member.signature, ⟨listed, asked⟩, rfl⟩

/-- Among the declarations of one class a signature determines the member. -/
theorem find?_declared_eq_some_iff :
    (hierarchy.declared query place).find? (fun other => other.signature = member.signature) =
        some member ↔ member ∈ hierarchy.declared query place := by
  constructor
  · exact List.mem_of_find?_eq_some
  · intro listed
    obtain ⟨first, found, same⟩ := exists_find?_signature listed
    have owned := (mem_declared_iff.mp (List.mem_of_find?_eq_some found)).1
    rw [found, MemberRef.eq_of_signature (owned.trans (mem_declared_iff.mp listed).1.symm) same]

theorem find?_declared_eq_none_iff :
    (hierarchy.declared query place).find? (fun other => other.signature = signature) = none ↔
      ¬hierarchy.Declares query place signature := by
  simp only [List.find?_eq_none, mem_declared_iff, decide_eq_true_eq]
  constructor
  · intro absent declares
    exact absent ⟨place, signature.name, signature.desc⟩ ⟨rfl, declares⟩ rfl
  · rintro absent other ⟨-, declares⟩ rfl
    exact absent declares

/-! What a look-up chooses from. -/

/-- The members that a look-up chooses from, in the order in which they are found. -/
def choice (hierarchy : Hierarchy) (query : MemberQuery) (owner : String) (recursive : Bool) :
    List MemberRef :=
  distinctSignatures [] ((hierarchy.searched owner recursive).flatMap (hierarchy.declared query))

theorem mem_choice_iff : member ∈ hierarchy.choice query owner recursive ↔
    hierarchy.Nearest query owner recursive member := by
  rw [choice, mem_distinctSignatures, List.find?_flatMap, List.findSome?_eq_some_iff]
  simp only [List.not_mem_nil, not_false_eq_true, true_and, find?_declared_eq_some_iff,
    find?_declared_eq_none_iff, mem_declared_iff, Nearest]
  constructor
  · rintro ⟨before, place, after, split, ⟨rfl, declares⟩, absent⟩
    exact ⟨before, after, split, declares, absent⟩
  · rintro ⟨before, after, split, declares, absent⟩
    exact ⟨before, _, after, split, ⟨rfl, declares⟩, absent⟩

theorem isChoice_choice (hierarchy : Hierarchy) (query : MemberQuery) (owner : String)
    (recursive : Bool) :
    hierarchy.IsChoice query owner recursive (hierarchy.choice query owner recursive) where
  once := nodup_distinctSignatures _ _
  nearest := fun member => mem_choice_iff.mp
  covers := by
    intro signature
    rw [List.mem_map]
    constructor
    · rintro ⟨member, listed, rfl⟩
      obtain ⟨before, after, split, declares, -⟩ := mem_choice_iff.mp listed
      exact ⟨member.owner, by simp [split], declares⟩
    · rintro ⟨place, searched, declares⟩
      -- Of the members with this signature the first one found is chosen.
      have listed : ⟨place, signature.name, signature.desc⟩ ∈
          (hierarchy.searched owner recursive).flatMap (hierarchy.declared query) :=
        List.mem_flatMap.mpr ⟨place, searched, mem_declared_iff.mpr ⟨rfl, declares⟩⟩
      obtain ⟨member, found, same⟩ := exists_find?_signature listed
      refine ⟨member, mem_distinctSignatures.mpr ⟨List.not_mem_nil, ?_⟩, same⟩
      rwa [same]

/-! What the modes make of it. -/

theorem resolve_unique_eq (hierarchy : Hierarchy) (query : MemberQuery) (owner : String)
    (recursive : Bool) : hierarchy.resolve query owner recursive .unique =
      match hierarchy.choice query owner recursive with
      | [] => .notFound
      | [member] => .found member
      | members => .ambiguous members := rfl

/-- The first declaration of all is also the first of those to choose from. -/
theorem resolve_first_eq (hierarchy : Hierarchy) (query : MemberQuery) (owner : String)
    (recursive : Bool) : hierarchy.resolve query owner recursive .first =
      match hierarchy.choice query owner recursive with
      | [] => .notFound
      | member :: _ => .found member := by
  unfold resolve choice
  dsimp only
  cases (hierarchy.searched owner recursive).flatMap (hierarchy.declared query) with
  | nil => rfl
  | cons member rest => rw [distinctSignatures, if_neg List.not_mem_nil]

theorem resolve_unique_eq_notFound_iff : hierarchy.resolve query owner recursive .unique =
    .notFound ↔ hierarchy.choice query owner recursive = [] := by
  rw [resolve_unique_eq]
  rcases hierarchy.choice query owner recursive with _ | ⟨nearest, _ | _⟩ <;> simp

theorem resolve_unique_eq_found_iff : hierarchy.resolve query owner recursive .unique =
    .found member ↔ hierarchy.choice query owner recursive = [member] := by
  rw [resolve_unique_eq]
  rcases hierarchy.choice query owner recursive with _ | ⟨nearest, _ | _⟩ <;> simp

theorem resolve_unique_eq_ambiguous_iff {members : List MemberRef} :
    hierarchy.resolve query owner recursive .unique = .ambiguous members ↔
      hierarchy.choice query owner recursive = members ∧
        ∃ nearest second others, members = nearest :: second :: others := by
  rw [resolve_unique_eq]
  rcases hierarchy.choice query owner recursive with _ | ⟨nearest, _ | ⟨second, others⟩⟩
  · simp +contextual [eq_comm]
  · simp +contextual [eq_comm]
  · constructor
    · rintro ⟨⟩
      exact ⟨rfl, nearest, second, others, rfl⟩
    · rintro ⟨rfl, -⟩
      rfl

theorem resolve_first_eq_notFound_iff : hierarchy.resolve query owner recursive .first =
    .notFound ↔ hierarchy.choice query owner recursive = [] := by
  rw [resolve_first_eq]
  cases hierarchy.choice query owner recursive <;> simp

theorem resolve_first_eq_found_iff : hierarchy.resolve query owner recursive .first =
    .found member ↔ (hierarchy.choice query owner recursive).head? = some member := by
  rw [resolve_first_eq]
  cases hierarchy.choice query owner recursive <;> simp

namespace IsChoice

variable {members : List MemberRef} (chosen : hierarchy.IsChoice query owner recursive members)
include chosen

/-- One member to choose is one signature. -/
theorem exists_eq_singleton_iff : (∃ member, members = [member]) ↔
    ∃! signature, hierarchy.Offers query owner recursive signature := by
  constructor
  · rintro ⟨member, rfl⟩
    refine ⟨member.signature, (chosen.covers _).mp (by simp), fun other offered => ?_⟩
    simpa using (chosen.covers other).mpr offered
  · rintro ⟨signature, offered, only⟩
    have listed := (chosen.covers signature).mpr offered
    rcases members with _ | ⟨nearest, _ | ⟨second, others⟩⟩
    · cases listed
    · exact ⟨nearest, rfl⟩
    · have same : nearest.signature = second.signature :=
        (only _ ((chosen.covers _).mp (by simp))).trans
          (only _ ((chosen.covers _).mp (by simp))).symm
      have once := chosen.once
      simp [same] at once

/-- A second member has a second signature, since none is there twice. -/
theorem exists_eq_cons_cons_iff :
    (∃ nearest second others, members = nearest :: second :: others) ↔
      ∃ one other, one ≠ other ∧ hierarchy.Offers query owner recursive one ∧
        hierarchy.Offers query owner recursive other := by
  constructor
  · rintro ⟨nearest, second, others, rfl⟩
    refine ⟨nearest.signature, second.signature, fun same => ?_, (chosen.covers _).mp (by simp),
      (chosen.covers _).mp (by simp)⟩
    have once := chosen.once
    simp [same] at once
  · rintro ⟨one, other, apart, offered, alsoOffered⟩
    have listed := (chosen.covers one).mpr offered
    have alsoListed := (chosen.covers other).mpr alsoOffered
    rcases members with _ | ⟨nearest, _ | ⟨second, others⟩⟩
    · cases listed
    · exact absurd ((List.mem_singleton.mp listed).trans (List.mem_singleton.mp alsoListed).symm)
        apart
    · exact ⟨nearest, second, others, rfl⟩

end IsChoice

/-- The modes agree. Both find nothing together; the unique mode finds a member exactly if one
signature is offered, and finds it where the other mode does; it is ambiguous exactly if two are
offered, and then lists all of them with the member of the other mode in front. A descriptor in
the query leaves no ambiguity. -/
theorem resolve_modes_agree (hierarchy : Hierarchy) (query : MemberQuery) (owner : String)
    (recursive : Bool) :
    let unique := hierarchy.resolve query owner recursive .unique
    let first := hierarchy.resolve query owner recursive .first
    (unique = .notFound ↔ first = .notFound) ∧
      (((∃ member, unique = .found member) ↔
          ∃! signature, hierarchy.Offers query owner recursive signature) ∧
        ∀ member, unique = .found member →
          hierarchy.Nearest query owner recursive member ∧ first = .found member) ∧
      (((∃ members, unique = .ambiguous members) ↔
          ∃ one other, one ≠ other ∧ hierarchy.Offers query owner recursive one ∧
            hierarchy.Offers query owner recursive other) ∧
        ∀ members, unique = .ambiguous members →
          hierarchy.IsChoice query owner recursive members ∧
            ∃ nearest others, members = nearest :: others ∧ first = .found nearest) ∧
      (query.desc.isSome = true → ∀ members, unique ≠ .ambiguous members) := by
  intro unique first
  have chosen := isChoice_choice hierarchy query owner recursive
  refine ⟨resolve_unique_eq_notFound_iff.trans resolve_first_eq_notFound_iff.symm, ⟨?_, ?_⟩,
    ⟨?_, ?_⟩, ?_⟩
  · rw [← chosen.exists_eq_singleton_iff]
    exact exists_congr fun member => resolve_unique_eq_found_iff
  · intro member found
    have alone := resolve_unique_eq_found_iff.mp found
    refine ⟨mem_choice_iff.mp ?_, resolve_first_eq_found_iff.mpr ?_⟩
    · rw [alone]
      exact List.mem_singleton_self member
    · rw [alone]
      rfl
  · rw [← chosen.exists_eq_cons_cons_iff]
    constructor
    · rintro ⟨members, ambiguous⟩
      obtain ⟨rfl, several⟩ := resolve_unique_eq_ambiguous_iff.mp ambiguous
      exact several
    · intro several
      exact ⟨_, resolve_unique_eq_ambiguous_iff.mpr ⟨rfl, several⟩⟩
  · intro members ambiguous
    obtain ⟨rfl, nearest, second, others, several⟩ :=
      resolve_unique_eq_ambiguous_iff.mp ambiguous
    refine ⟨chosen, nearest, second :: others, several, resolve_first_eq_found_iff.mpr ?_⟩
    rw [several]
    rfl
  · intro given members ambiguous
    obtain ⟨desc, given⟩ := Option.isSome_iff_exists.mp given
    -- With a descriptor the modes give the same, and the first mode is never ambiguous.
    obtain ⟨rfl, nearest, second, others, several⟩ :=
      resolve_unique_eq_ambiguous_iff.mp ambiguous
    have found : first = .found nearest := resolve_first_eq_found_iff.mpr (by rw [several]; rfl)
    have same : unique = first := resolve_unique_of_desc hierarchy given owner recursive
    rw [same, found] at ambiguous
    cases ambiguous

end Hierarchy

end ArchiveRemap
