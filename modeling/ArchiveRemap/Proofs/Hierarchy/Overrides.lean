import ArchiveRemap.Hierarchy.Renamer
import ArchiveRemap.Proofs.Hierarchy.BreadthFirst

/-!
Names of overriding members. Every class asks its own supertypes for the new name of a member,
in an order of its own. Where the table has one new name for a member in all of a search, none of
this can be seen: a class takes that name exactly if the table has it for the class or for one
of its supertypes.
-/

namespace ArchiveRemap.Renamer

variable {renamer : Renamer} {kind : MemberKind} {place owner name desc mapped : String}

/-- The table has a new name for a member in a class or in one of its supertypes. -/
def Names (renamer : Renamer) (kind : MemberKind) (place name desc : String) : Prop :=
  ∃ above ∈ renamer.hierarchy.ancestors place,
    (renamer.table.mapMember? kind above name desc).isSome

/-- Supertypes of a class have no entry that the class does not have. -/
theorem Names.below (above : owner ∈ renamer.hierarchy.ancestors place)
    (names : renamer.Names kind owner name desc) : renamer.Names kind place name desc := by
  obtain ⟨top, found, entry⟩ := names
  exact ⟨top, Hierarchy.mem_ancestors_trans above found, entry⟩

/-- A known class asks the whole of its search, itself first. -/
theorem inherited?_of_knows (known : renamer.hierarchy.knows place = true) (kind : MemberKind)
    (name desc : String) : renamer.inherited? kind place name desc =
      (renamer.hierarchy.ancestors place).findSome? fun above =>
        renamer.table.mapMember? kind above name desc := by
  obtain ⟨rest, begins⟩ := Hierarchy.exists_ancestors_eq_cons known
  rw [inherited?, begins, List.findSome?_cons, List.drop_succ_cons, List.drop_zero]
  cases renamer.table.mapMember? kind place name desc <;> rfl

theorem knows_of_mem_ancestors (found : place ∈ renamer.hierarchy.ancestors owner) :
    renamer.hierarchy.knows place = true := by
  obtain ⟨steps, climbs⟩ := Hierarchy.mem_ancestors_iff.mp found
  exact climbs.knows

theorem mapMember_of_not_names (known : renamer.hierarchy.knows place = true)
    (unnamed : ¬renamer.Names kind place name desc) :
    renamer.mapMember kind place name desc = name := by
  have absent : renamer.inherited? kind place name desc = none := by
    rw [inherited?_of_knows known, List.findSome?_eq_none_iff]
    intro above found
    rw [← Option.not_isSome_iff_eq_none]
    exact fun entry => unnamed ⟨above, found, entry⟩
  rw [mapMember, absent]
  exact ite_self name

theorem mapMember_of_names (renamable : keepsName kind name = false)
    (agreed : ∀ above ∈ renamer.hierarchy.ancestors place, ∀ new,
      renamer.table.mapMember? kind above name desc = some new → new = mapped)
    (known : renamer.hierarchy.knows place = true) (names : renamer.Names kind place name desc) :
    renamer.mapMember kind place name desc = mapped := by
  have some : (renamer.inherited? kind place name desc).isSome := by
    rw [inherited?_of_knows known, List.findSome?_isSome_iff]
    exact names
  obtain ⟨new, found⟩ := Option.isSome_iff_exists.mp some
  have fromSearch := found
  rw [inherited?_of_knows known] at fromSearch
  obtain ⟨above, member, entry⟩ := List.exists_of_findSome?_eq_some fromSearch
  rw [mapMember, renamable, found]
  exact agreed above member new entry

/-- If all entries for a member in the supertypes of a class agree on one new name, every class of
the search takes it that has an entry for the member in its own search, and all others keep the
old name. An override has the name of what it overrides unless only the override has an entry
above it, and that entry changes the name. -/
theorem overrides_named_together (renamable : keepsName kind name = false)
    (agreed : ∀ place ∈ renamer.hierarchy.ancestors owner, ∀ new,
      renamer.table.mapMember? kind place name desc = some new → new = mapped) :
    ∀ place ∈ renamer.hierarchy.ancestors owner,
      (renamer.Names kind place name desc →
        renamer.mapMember kind place name desc = mapped) ∧
      (¬renamer.Names kind place name desc → renamer.mapMember kind place name desc = name) ∧
      ∀ above ∈ renamer.hierarchy.ancestors place,
        renamer.mapMember kind place name desc = renamer.mapMember kind above name desc ↔
          (renamer.Names kind place name desc → renamer.Names kind above name desc) ∨
            mapped = name := by
  have taken : ∀ place ∈ renamer.hierarchy.ancestors owner,
      renamer.Names kind place name desc → renamer.mapMember kind place name desc = mapped := by
    intro place found names
    refine mapMember_of_names renamable ?_ (knows_of_mem_ancestors found) names
    exact fun above further => agreed above (Hierarchy.mem_ancestors_trans found further)
  intro place found
  have placeKnown := knows_of_mem_ancestors found
  refine ⟨taken place found, mapMember_of_not_names placeKnown, fun above further => ?_⟩
  have aboveFound := Hierarchy.mem_ancestors_trans found further
  have aboveKnown := knows_of_mem_ancestors aboveFound
  by_cases aboveNames : renamer.Names kind above name desc
  · rw [taken place found (aboveNames.below further), taken above aboveFound aboveNames]
    exact iff_of_true rfl (.inl fun _ => aboveNames)
  · rw [mapMember_of_not_names aboveKnown aboveNames]
    by_cases placeNames : renamer.Names kind place name desc
    · rw [taken place found placeNames]
      exact ⟨.inr, fun either => either.resolve_left fun up => aboveNames (up placeNames)⟩
    · rw [mapMember_of_not_names placeKnown placeNames]
      exact iff_of_true rfl (.inl fun names => absurd names placeNames)

/-- A class that overrides a method of its superclass and of an interface, which have the same
new name for it, beside an interface without the method. The superclass goes back to the class
below it. -/
def overridingRenamer : Renamer where
  table := ⟨"a", "b", [("A", ⟨"A", [], [⟨"t", "()V", "tick"⟩]⟩),
    ("I", ⟨"I", [], [⟨"t", "()V", "tick"⟩]⟩)]⟩
  hierarchy := .ofNodes
    [Hierarchy.emptyNode "C" (some "B") ["K"], Hierarchy.emptyNode "B" (some "A") ["I", "x"],
      Hierarchy.emptyNode "A" none ["B"], Hierarchy.emptyNode "I" none [],
      Hierarchy.emptyNode "K" none []]

theorem ancestors_overriding :
    overridingRenamer.hierarchy.ancestors "C" = ["C", "B", "K", "A", "I"] ∧
      overridingRenamer.hierarchy.ancestors "A" = ["A", "B", "I"] ∧
        overridingRenamer.hierarchy.ancestors "K" = ["K"] := by
  have keys : overridingRenamer.hierarchy.classes.keys = ["C", "B", "A", "I", "K"] := by decide
  have above : ["C", "B", "A", "I", "K"].map overridingRenamer.hierarchy.parents =
      [["B", "K"], ["A", "I", "x"], ["B"], [], []] := by decide
  simp only [List.map_cons, List.map_nil, List.cons.injEq, and_true] at above
  obtain ⟨c, b, a, i, k⟩ := above
  simp [Hierarchy.ancestors, Hierarchy.visit, keys, a, b, c, i, k]

theorem overrides_named_together_interface :
    Renamer.keepsName .method "t" = false ∧
      (∀ place ∈ overridingRenamer.hierarchy.ancestors "C", ∀ new,
        overridingRenamer.table.mapMember? .method place "t" "()V" = some new → new = "tick") ∧
      overridingRenamer.mapMember .method "C" "t" "()V" = "tick" ∧
      overridingRenamer.mapMember .method "A" "t" "()V" = "tick" ∧
      overridingRenamer.mapMember .method "K" "t" "()V" = "t" := by
  obtain ⟨ofC, ofA, ofK⟩ := ancestors_overriding
  have renamable : keepsName .method "t" = false := by decide
  have agreed : ∀ place ∈ overridingRenamer.hierarchy.ancestors "C", ∀ new,
      overridingRenamer.table.mapMember? .method place "t" "()V" = some new → new = "tick" := by
    rw [ofC]
    decide
  have together := overrides_named_together renamable agreed
  have namesA : overridingRenamer.Names .method "A" "t" "()V" :=
    ⟨"A", by simp [ofA], by decide⟩
  have namesK : ¬overridingRenamer.Names .method "K" "t" "()V" := by
    rintro ⟨above, found, entry⟩
    rw [ofK, List.mem_singleton] at found
    subst found
    exact absurd entry (by decide)
  have aboveC : "A" ∈ overridingRenamer.hierarchy.ancestors "C" := by simp [ofC]
  refine ⟨renamable, agreed, ?_, ?_, ?_⟩
  · exact (together "C" (by simp [ofC])).1 (namesA.below aboveC)
  · exact (together "A" aboveC).1 namesA
  · exact (together "K" (by simp [ofC])).2.1 namesK

end ArchiveRemap.Renamer
