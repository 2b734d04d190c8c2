import ArchiveRemap.Hierarchy.Lookup

/-!
What a lookup comes to. A lookup that gives a descriptor can only meet declarations of one
signature, so both modes find the same. One through a class without known supertypes meets what
that class declares.
-/

namespace ArchiveRemap

/-- A query with a descriptor matches one signature. -/
theorem MemberQuery.eq_of_matches {query : MemberQuery} {signature : Signature} {desc : String}
    (given : query.desc = some desc) (hit : query.matches signature = true) :
    signature = ⟨query.name, desc⟩ := by
  obtain ⟨name, type⟩ := signature
  simpa [MemberQuery.matches, given] using hit

/-- Members of a signature that was seen do not count. -/
theorem distinctSignatures_of_seen {members : List MemberRef} {seen : List Signature}
    {signature : Signature} (alike : ∀ member ∈ members, member.signature = signature)
    (known : signature ∈ seen) : distinctSignatures seen members = [] := by
  induction members with
  | nil => rfl
  | cons member rest ih =>
      obtain ⟨first, others⟩ := List.forall_mem_cons.mp alike
      rw [distinctSignatures, if_pos (first ▸ known), ih others]

/-- Of members of one signature the first counts. -/
theorem distinctSignatures_cons_of_alike {member : MemberRef} {rest : List MemberRef}
    (alike : ∀ other ∈ rest, other.signature = member.signature) :
    distinctSignatures [] (member :: rest) = [member] := by
  rw [distinctSignatures, if_neg List.not_mem_nil,
    distinctSignatures_of_seen alike List.mem_cons_self]

namespace Hierarchy

theorem matches_of_mem_declared {hierarchy : Hierarchy} {query : MemberQuery} {owner : String}
    {member : MemberRef} (declared : member ∈ hierarchy.declared query owner) :
    query.matches member.signature = true := by
  unfold Hierarchy.declared at declared
  split at declared
  · obtain ⟨signature, listed, rfl⟩ := List.mem_map.mp declared
    exact (List.mem_filter.mp listed).2
  · cases declared

/-- A member that is found is declared by the class that it names. -/
theorem declared_of_found {hierarchy : Hierarchy} {query : MemberQuery} {owner : String}
    {recursive : Bool} {member : MemberRef}
    (found : hierarchy.resolve query owner recursive .first = .found member) :
    member ∈ hierarchy.declared query member.owner := by
  unfold resolve at found
  dsimp only at found
  split at found
  · cases found
  · rename_i first rest all
    cases found
    obtain ⟨place, -, declared⟩ := List.mem_flatMap.mp (all ▸ List.mem_cons_self)
    have owned : member.owner = place := by
      unfold Hierarchy.declared at declared
      split at declared
      · obtain ⟨signature, -, rfl⟩ := List.mem_map.mp declared
        rfl
      · cases declared
    exact owned ▸ declared

/-- With a descriptor a lookup is never ambiguous, and both modes give the same. -/
theorem resolve_unique_of_desc (hierarchy : Hierarchy) {query : MemberQuery} {desc : String}
    (given : query.desc = some desc) (owner : String) (recursive : Bool) :
    hierarchy.resolve query owner recursive .unique =
      hierarchy.resolve query owner recursive .first := by
  have alike : ∀ member ∈ (hierarchy.searched owner recursive).flatMap (hierarchy.declared query),
      member.signature = ⟨query.name, desc⟩ := by
    intro member listed
    obtain ⟨place, -, declared⟩ := List.mem_flatMap.mp listed
    exact MemberQuery.eq_of_matches given (matches_of_mem_declared declared)
  unfold Hierarchy.resolve
  generalize (hierarchy.searched owner recursive).flatMap (hierarchy.declared query) = all at alike
  cases all with
  | nil => rfl
  | cons member rest =>
      obtain ⟨first, others⟩ := List.forall_mem_cons.mp alike
      dsimp only
      rw [distinctSignatures_cons_of_alike fun other listed =>
        (others other listed).trans first.symm]

/-! The steps of a search. -/

section Steps

variable {parents : String → List String} {unseen rest : List String} {current : String}

@[simp] theorem visit_nil : visit parents unseen [] = [] := by rw [visit]

/-- An unseen name is visited, and its parents wait behind all others. -/
theorem visit_of_mem (member : current ∈ unseen) : visit parents unseen (current :: rest) =
    current :: visit parents (unseen.erase current) (rest ++ parents current) := by
  rw [visit, dif_pos member]

theorem visit_of_not_mem (absent : current ∉ unseen) :
    visit parents unseen (current :: rest) = visit parents unseen rest := by
  rw [visit, dif_neg absent]

end Steps

theorem mem_keys_iff {hierarchy : Hierarchy} {name : String} :
    name ∈ hierarchy.classes.keys ↔ hierarchy.knows name = true := by
  rw [← Decidable.not_iff_not, ← Keyed.get?_eq_none_iff]
  simp [knows, class?]

/-- A class whose supertypes are not known is searched by itself. -/
theorem searched_of_alone {hierarchy : Hierarchy} {owner : String}
    (alone : hierarchy.parents owner = []) :
    hierarchy.searched owner true = hierarchy.searched owner false := by
  simp only [searched, ancestors, if_true, Bool.false_eq_true, if_false, ← mem_keys_iff]
  -- The search visits the class if it is known; nothing joins the queue behind it.
  split
  · rename_i known
    rw [visit_of_mem known, alone, List.append_nil, visit_nil]
  · rename_i unknown
    rw [visit_of_not_mem unknown, visit_nil]

theorem resolve_of_alone {hierarchy : Hierarchy} {owner : String}
    (alone : hierarchy.parents owner = []) (query : MemberQuery) (mode : LookupMode) :
    hierarchy.resolve query owner true mode = hierarchy.resolve query owner false mode := by
  unfold resolve
  rw [searched_of_alone alone]

/-- Where no class has known supertypes every lookup stays in its class. -/
theorem resolve_eq_of_alone {hierarchy : Hierarchy}
    (alone : ∀ owner, hierarchy.parents owner = []) :
    hierarchy.resolve = fun query owner _ mode => hierarchy.resolve query owner false mode := by
  funext query owner recursive mode
  cases recursive with
  | false => rfl
  | true => exact resolve_of_alone (alone owner) query mode

end Hierarchy

end ArchiveRemap
