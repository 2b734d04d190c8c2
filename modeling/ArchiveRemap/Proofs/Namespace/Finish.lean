import ArchiveRemap.Namespace.Building
import Mathlib.Data.List.Nodup
import Mathlib.Data.List.Range
import Mathlib.Logic.Relation

/-!
The depth-first search that orders namespaces for the cycle check. A namespace is open
between its discovery and its finish, and then everything above it on the stack can be
reached from it. So a dependency that is not finished before its dependent is still open at
that moment and reaches the dependent: the two lie on a cycle. Read from the last finish to
the first, the order therefore either puts every namespace before its dependencies, or shows
a cycle wherever it does not.
-/

namespace ArchiveRemap.Graph

open Relation (TransGen)

/-- One namespace depends on another by some chain of dependencies. -/
def Reaches (dependencies : Nat → List Nat) : Nat → Nat → Prop :=
  TransGen fun id dependency => dependency ∈ dependencies id

variable {dependencies : Nat → List Nat} {ids : List Nat}

/-! The order of finishing. -/

/-- What an order of finishing, last finish first, says of the dependencies: each comes later
in the order, or leads back to its dependent. -/
structure Settled (dependencies : Nat → List Nat) (finished : List Nat) : Prop where
  distinct : finished.Nodup
  later : ∀ before id after, finished = before ++ id :: after →
    ∀ dependency ∈ dependencies id, dependency ∈ after ∨ Reaches dependencies dependency id
  apart : ∀ id ∈ finished, id ∉ dependencies id

namespace Settled

theorem empty : Settled dependencies [] where
  distinct := List.nodup_nil
  later := by simp
  apart := by simp

theorem cons {finished : List Nat} {id : Nat} (settled : Settled dependencies finished)
    (fresh : id ∉ finished) (alone : id ∉ dependencies id)
    (done : ∀ dependency ∈ dependencies id,
      dependency ∈ finished ∨ Reaches dependencies dependency id) :
    Settled dependencies (id :: finished) := by
  constructor
  case distinct => exact List.nodup_cons.mpr ⟨fresh, settled.distinct⟩
  case later =>
    intro before other after split dependency needed
    cases before with
    | nil =>
        obtain ⟨rfl, rfl⟩ := List.cons.inj split
        exact done dependency needed
    | cons first rest =>
        exact settled.later rest other after (List.cons.inj split).2 dependency needed
  case apart =>
    intro other member
    rcases List.mem_cons.mp member with rfl | old
    · exact alone
    · exact settled.apart other old

end Settled

/-! The search from one stack. -/

/-- A split of two lists behind the first one is a split of the second one. -/
theorem exists_split_behind {first second above below : List Nat} {id : Nat}
    (split : first ++ second = above ++ id :: below) (absent : id ∉ first) :
    ∃ middle, above = first ++ middle ∧ second = middle ++ id :: below := by
  rcases List.append_eq_append_iff.mp split with ⟨middle, more, less⟩ | ⟨middle, more, less⟩
  · exact ⟨middle, more, less⟩
  · cases middle with
    | nil => exact ⟨[], by simpa using more.symm, by simpa using less.symm⟩
    | cons head tail =>
        obtain ⟨rfl, _⟩ := List.cons.inj less
        rw [more] at absent
        exact absurd (List.mem_append_right above List.mem_cons_self) absent

/-- What holds whenever the search looks at its stack. -/
structure Finishing (dependencies : Nat → List Nat) (ids undiscovered stack finished : List Nat) :
    Prop where
  settled : Settled dependencies finished
  fresh : undiscovered.Nodup
  inside : ∀ id, id ∈ undiscovered ∨ id ∈ stack ∨ id ∈ finished → id ∈ ids
  passed : ∀ id ∈ finished, id ∉ undiscovered
  waiting : ∀ id ∈ ids, id ∉ undiscovered → id ∉ finished → id ∈ stack
  /-- An open namespace, by its topmost place on the stack. -/
  leads : ∀ above id below, stack = above ++ id :: below → id ∉ above → id ∉ undiscovered →
    id ∉ finished → id ∉ dependencies id ∧ (∀ other ∈ above, Reaches dependencies id other) ∧
      ∀ dependency ∈ dependencies id, dependency ∈ undiscovered → dependency ∈ above

namespace Finishing

variable {undiscovered stack rest finished : List Nat} {id : Nat}

/-- With an empty stack, whatever is discovered is finished. -/
theorem finished_of_empty (state : Finishing dependencies ids undiscovered [] finished)
    (known : id ∈ ids) (discovered : id ∉ undiscovered) : id ∈ finished := by
  by_contra missing
  exact absurd (state.waiting id known discovered missing) List.not_mem_nil

/-- A search starts where nothing is open. -/
theorem start (state : Finishing dependencies ids undiscovered [] finished)
    (new : id ∈ undiscovered) : Finishing dependencies ids undiscovered [id] finished := by
  refine { state with inside := ?_, waiting := ?_, leads := ?_ }
  · rintro other (member | member | done)
    · exact state.inside other (.inl member)
    · rw [List.mem_singleton.mp member]
      exact state.inside id (.inl new)
    · exact state.inside other (.inr (.inr done))
  · intro other known discovered missing
    exact absurd (state.finished_of_empty known discovered) missing
  · intro above other below split _ discovered _
    have member : other ∈ [id] := by
      rw [split]
      exact List.mem_append_right above List.mem_cons_self
    rw [List.mem_singleton.mp member] at discovered
    exact absurd new discovered

/-- When the dependencies of the namespace on top go above it, they are all that is above it, and
above the open ones below it there is no more than what they lead to. -/
theorem leads_of_discover (state : Finishing dependencies ids undiscovered (id :: rest) finished)
    (alone : id ∉ dependencies id) {above below : List Nat} {other : Nat}
    (split : (dependencies id).filter (· ∈ undiscovered.erase id) ++ id :: rest =
      above ++ other :: below) (topmost : other ∉ above)
    (discovered : other ∉ undiscovered.erase id) (missing : other ∉ finished) :
    other ∉ dependencies other ∧ (∀ next ∈ above, Reaches dependencies other next) ∧
      ∀ dependency ∈ dependencies other, dependency ∈ undiscovered.erase id →
        dependency ∈ above := by
  have notNew : other ∉ (dependencies id).filter (· ∈ undiscovered.erase id) :=
    fun member => discovered (of_decide_eq_true (List.mem_filter.mp member).2)
  obtain ⟨middle, rfl, old⟩ := exists_split_behind split notNew
  have notMiddle : other ∉ middle := fun member => topmost (List.mem_append_right _ member)
  cases middle with
  | nil =>
      -- The namespace just discovered: above it are exactly the new ones.
      obtain ⟨rfl, _⟩ := List.cons.inj old
      rw [List.append_nil]
      refine ⟨alone, fun next member => .single (List.mem_filter.mp member).1, ?_⟩
      intro dependency needed stillNew
      simpa using ⟨needed, stillNew⟩
  | cons head tail =>
      -- One opened before: the new ones are reached through the one they were pushed for.
      obtain ⟨rfl, _⟩ := List.cons.inj old
      have different : other ≠ id := fun same => notMiddle (same ▸ List.mem_cons_self)
      have seen : other ∉ undiscovered := fun member =>
        discovered ((List.mem_erase_of_ne different).mpr member)
      obtain ⟨apart, reached, covered⟩ :=
        state.leads (id :: tail) other below old notMiddle seen missing
      refine ⟨apart, ?_, ?_⟩
      · intro next member
        rcases List.mem_append.mp member with new | older
        · exact (reached id List.mem_cons_self).tail (List.mem_filter.mp new).1
        · exact reached next older
      · intro dependency needed stillNew
        exact List.mem_append_right _
          (covered dependency needed (List.mem_of_mem_erase stillNew))

/-- Discovering the namespace on top: its undiscovered dependencies go above it. -/
theorem discover (state : Finishing dependencies ids undiscovered (id :: rest) finished)
    (alone : id ∉ dependencies id) :
    Finishing dependencies ids (undiscovered.erase id)
      ((dependencies id).filter (· ∈ undiscovered.erase id) ++ id :: rest) finished := by
  have gone : id ∉ undiscovered.erase id := state.fresh.not_mem_erase
  constructor
  case settled => exact state.settled
  case fresh => exact state.fresh.erase id
  case inside =>
    rintro other (member | member | done)
    · exact state.inside other (.inl (List.mem_of_mem_erase member))
    · rcases List.mem_append.mp member with pushed | old
      · have new := of_decide_eq_true (List.mem_filter.mp pushed).2
        exact state.inside other (.inl (List.mem_of_mem_erase new))
      · exact state.inside other (.inr (.inl old))
    · exact state.inside other (.inr (.inr done))
  case passed =>
    exact fun other done member => state.passed other done (List.mem_of_mem_erase member)
  case waiting =>
    intro other known discovered missing
    by_cases same : other = id
    · rw [same]
      exact List.mem_append_right _ List.mem_cons_self
    · have before : other ∉ undiscovered := fun member =>
        discovered ((List.mem_erase_of_ne same).mpr member)
      exact List.mem_append_right _ (state.waiting other known before missing)
  case leads =>
    intro above other below split topmost discovered missing
    exact state.leads_of_discover alone split topmost discovered missing

/-- Taking a discovered namespace off the stack leaves the open ones below it as they are. -/
theorem leads_of_pop (state : Finishing dependencies ids undiscovered (id :: rest) finished)
    (discovered : id ∉ undiscovered) {above below : List Nat} {other : Nat}
    (split : rest = above ++ other :: below) (topmost : other ∉ above) (different : other ≠ id)
    (seen : other ∉ undiscovered) (missing : other ∉ finished) :
    other ∉ dependencies other ∧ (∀ next ∈ above, Reaches dependencies other next) ∧
      ∀ dependency ∈ dependencies other, dependency ∈ undiscovered → dependency ∈ above := by
  have old : id :: rest = (id :: above) ++ other :: below := by rw [split, List.cons_append]
  have highest : other ∉ id :: above := by simp [different, topmost]
  obtain ⟨apart, reached, covered⟩ := state.leads _ other below old highest seen missing
  refine ⟨apart, fun next member => reached next (List.mem_cons_of_mem id member), ?_⟩
  intro dependency needed stillNew
  rcases List.mem_cons.mp (covered dependency needed stillNew) with rfl | member
  · exact absurd stillNew discovered
  · exact member

/-- A namespace that comes to the top again after its finish. -/
theorem skip (state : Finishing dependencies ids undiscovered (id :: rest) finished)
    (discovered : id ∉ undiscovered) (done : id ∈ finished) :
    Finishing dependencies ids undiscovered rest finished := by
  refine { state with inside := ?_, waiting := ?_, leads := ?_ }
  · rintro other (member | member | finished')
    · exact state.inside other (.inl member)
    · exact state.inside other (.inr (.inl (List.mem_cons_of_mem id member)))
    · exact state.inside other (.inr (.inr finished'))
  · intro other known seen missing
    rcases List.mem_cons.mp (state.waiting other known seen missing) with rfl | below
    · exact absurd done missing
    · exact below
  · intro above other below split topmost seen missing
    have different : other ≠ id := by rintro rfl; exact missing done
    exact state.leads_of_pop discovered split topmost different seen missing

/-- Finishing the namespace on top. A dependency that is not finished yet is open further
down the stack, so it reaches the namespace that finishes. -/
theorem finish (closed : ∀ id, ∀ dependency ∈ dependencies id, dependency ∈ ids)
    (state : Finishing dependencies ids undiscovered (id :: rest) finished)
    (discovered : id ∉ undiscovered) (missing : id ∉ finished) :
    Finishing dependencies ids undiscovered rest (id :: finished) := by
  obtain ⟨alone, _, covered⟩ :=
    state.leads [] id rest rfl List.not_mem_nil discovered missing
  constructor
  case settled =>
    refine state.settled.cons missing alone ?_
    intro dependency needed
    by_cases done : dependency ∈ finished
    · exact .inl done
    · right
      have seen : dependency ∉ undiscovered := fun member =>
        absurd (covered dependency needed member) List.not_mem_nil
      -- It is open further down, and from there the stack leads up to `id`: a cycle is closed.
      have different : dependency ≠ id := by rintro rfl; exact alone needed
      have waits : dependency ∈ rest :=
        (List.mem_cons.mp (state.waiting dependency (closed id dependency needed) seen
          done)).resolve_left different
      obtain ⟨above, below, split, topmost⟩ := List.eq_append_cons_of_mem waits
      have old : id :: rest = (id :: above) ++ dependency :: below := by
        rw [split, List.cons_append]
      have highest : dependency ∉ id :: above := by simp [different, topmost]
      exact (state.leads _ dependency below old highest seen done).2.1 id List.mem_cons_self
  case fresh => exact state.fresh
  case inside =>
    rintro other (member | member | done)
    · exact state.inside other (.inl member)
    · exact state.inside other (.inr (.inl (List.mem_cons_of_mem id member)))
    · rcases List.mem_cons.mp done with rfl | old
      · exact state.inside other (.inr (.inl List.mem_cons_self))
      · exact state.inside other (.inr (.inr old))
  case passed =>
    intro other member
    rcases List.mem_cons.mp member with rfl | old
    · exact discovered
    · exact state.passed other old
  case waiting =>
    intro other known seen unfinished
    rw [List.mem_cons, not_or] at unfinished
    rcases List.mem_cons.mp (state.waiting other known seen unfinished.2) with same | below
    · exact absurd same unfinished.1
    · exact below
  case leads =>
    intro above other below split topmost seen unfinished
    rw [List.mem_cons, not_or] at unfinished
    exact state.leads_of_pop discovered split topmost unfinished.1 seen unfinished.2

end Finishing

/-- A search leaves nothing open, and fails only at a namespace that depends on itself. -/
theorem finishAll_spec (closed : ∀ id, ∀ dependency ∈ dependencies id, dependency ∈ ids)
    (undiscovered stack finished : List Nat)
    (state : Finishing dependencies ids undiscovered stack finished) :
    match finishAll dependencies undiscovered stack finished with
    | .ok (left, done) => Finishing dependencies ids left [] done ∧
        (∀ id ∈ left, id ∈ undiscovered) ∧ ∀ id ∈ stack, id ∉ left
    | .error id => id ∈ dependencies id := by
  induction undiscovered, stack, finished using finishAll.induct dependencies with
  | case1 undiscovered finished =>
      rw [finishAll]
      exact ⟨state, fun _ member => member, by simp⟩
  | case2 undiscovered finished id rest new own =>
      rw [finishAll]
      simp only [new, own, dite_true, if_true]
  | case3 undiscovered finished id rest new alone ih =>
      rw [finishAll]
      simp only [new, alone, dite_true, if_false]
      have passed := ih (state.discover alone)
      split at passed
      · obtain ⟨ended, fewer, gone⟩ := passed
        refine ⟨ended, fun other member => List.mem_of_mem_erase (fewer other member), ?_⟩
        exact fun other member => gone other (List.mem_append_right _ member)
      · exact passed
  | case4 undiscovered finished id rest discovered ih =>
      rw [finishAll]
      rw [dite_eq_ite] at ih
      simp only [discovered, dite_false]
      have popped : Finishing dependencies ids undiscovered rest
          (if id ∈ finished then finished else id :: finished) := by
        by_cases done : id ∈ finished
        · rw [if_pos done]
          exact state.skip discovered done
        · rw [if_neg done]
          exact state.finish closed discovered done
      have passed := ih popped
      split at passed
      · obtain ⟨ended, fewer, gone⟩ := passed
        refine ⟨ended, fewer, ?_⟩
        intro other member
        rcases List.mem_cons.mp member with rfl | below
        · exact fun still => discovered (fewer other still)
        · exact gone other below
      · exact passed

/-- The search from all namespaces in turn. -/
theorem finishOrder_spec (closed : ∀ id, ∀ dependency ∈ dependencies id, dependency ∈ ids)
    (starts undiscovered finished : List Nat)
    (state : Finishing dependencies ids undiscovered [] finished)
    (covered : ∀ id ∈ undiscovered, id ∈ starts) :
    match finishOrder dependencies undiscovered finished starts with
    | .ok order => Settled dependencies order ∧ ∀ id, id ∈ order ↔ id ∈ ids
    | .error id => id ∈ dependencies id := by
  induction starts generalizing undiscovered finished with
  | nil =>
      refine ⟨state.settled, fun id => ⟨fun done => state.inside id (.inr (.inr done)), ?_⟩⟩
      exact fun known => state.finished_of_empty known fun member =>
        absurd (covered id member) List.not_mem_nil
  | cons first rest ih =>
      rw [finishOrder]
      by_cases new : first ∈ undiscovered
      · rw [if_pos new]
        have searched := finishAll_spec closed undiscovered [first] finished (state.start new)
        cases found : finishAll dependencies undiscovered [first] finished with
        | ok left =>
            rw [found] at searched
            obtain ⟨ended, fewer, gone⟩ := searched
            refine ih left.1 left.2 ended fun id member => ?_
            have different : id ≠ first := by
              rintro rfl
              exact gone id List.mem_cons_self member
            exact (List.mem_cons.mp (covered id (fewer id member))).resolve_left different
        | error id =>
            rw [found] at searched
            exact searched
      · rw [if_neg new]
        refine ih undiscovered finished state fun id member => ?_
        have different : id ≠ first := by
          rintro rfl
          exact new member
        exact (List.mem_cons.mp (covered id member)).resolve_left different

/-- The order in which all namespaces finish. -/
theorem finishOrder_ids (graph : Graph)
    (closed : ∀ id, ∀ dependency ∈ graph.dependencies id, dependency ∈ graph.ids) :
    match finishOrder graph.dependencies graph.ids [] graph.ids with
    | .ok order => Settled graph.dependencies order ∧ ∀ id, id ∈ order ↔ id ∈ graph.ids
    | .error id => id ∈ graph.dependencies id :=
  finishOrder_spec closed graph.ids graph.ids []
    { settled := .empty
      fresh := List.nodup_range
      inside := by simp
      passed := by simp
      waiting := fun _ known unseen => absurd known unseen
      leads := by simp } (fun _ member => member)

/-! Reading the order. -/

section Order

variable {dependents : Nat → List Nat}

/-- The first dependent out of place, with the place where it is missed. -/
theorem misplaced?_eq_some {placed order : List Nat} {other : Nat}
    (found : misplaced? dependents placed order = some other) :
    ∃ before id after, order = before ++ id :: after ∧ other ∈ dependents id ∧ other ≠ id ∧
      other ∉ before ∧ other ∉ placed := by
  induction order generalizing placed with
  | nil => cases found
  | cons id rest ih =>
      rw [misplaced?] at found
      split at found
      · rename_i first here
        cases found
        have missed := List.find?_some here
        simp only [ne_eq, Bool.and_eq_true, decide_eq_true_eq] at missed
        exact ⟨[], id, rest, rfl, List.mem_of_find?_eq_some here, missed.1, List.not_mem_nil,
          missed.2⟩
      · obtain ⟨before, next, after, split, depends, different, missing, unplaced⟩ := ih found
        rw [List.mem_cons, not_or] at unplaced
        refine ⟨id :: before, next, after, by rw [split, List.cons_append], depends, different,
          ?_, unplaced.2⟩
        exact List.not_mem_cons_of_ne_of_not_mem unplaced.1 missing

theorem misplaced?_eq_none {placed order : List Nat}
    (found : misplaced? dependents placed order = none) {before after : List Nat} {id : Nat}
    (split : order = before ++ id :: after) :
    ∀ other ∈ dependents id, other ≠ id → other ∈ before ∨ other ∈ placed := by
  induction order generalizing placed before with
  | nil => simp at split
  | cons first rest ih =>
      rw [misplaced?] at found
      split at found
      · cases found
      · rename_i here
        intro other depends different
        cases before with
        | nil =>
            obtain ⟨rfl, _⟩ := List.cons.inj split
            have placed' := List.find?_eq_none.mp here other depends
            simpa [different] using placed'
        | cons head tail =>
            obtain ⟨rfl, later⟩ := List.cons.inj split
            rcases ih found later other depends different with earlier | placed'
            · exact .inl (List.mem_cons_of_mem _ earlier)
            · rcases List.mem_cons.mp placed' with rfl | old
              · exact .inl List.mem_cons_self
              · exact .inr old

end Order

/-! The check of a whole graph. -/

section Check

variable {graph : Graph} {order before after : List Nat} {id other : Nat}

theorem mem_ids_of_dependency (needed : other ∈ graph.dependencies id) : id ∈ graph.ids := by
  rw [ids, List.mem_range]
  by_contra outside
  have missing : graph.get? id = none := List.getElem?_eq_none (not_lt.mp outside)
  rw [dependencies, missing] at needed
  exact absurd needed List.not_mem_nil

theorem mem_dependents_iff : other ∈ graph.dependents id ↔ id ∈ graph.dependencies other := by
  rw [dependents, List.mem_filter, List.contains_iff_mem]
  exact ⟨And.right, fun needed => ⟨mem_ids_of_dependency needed, needed⟩⟩

/-- A dependent out of place finished before the dependency it still needed. -/
theorem reaches_of_misplaced (settled : Settled graph.dependencies order)
    (covers : ∀ id, id ∈ order ↔ id ∈ graph.ids)
    (missed : misplaced? graph.dependents [] order = some other) :
    Reaches graph.dependencies other other := by
  obtain ⟨before, id, after, split, depends, different, missing, _⟩ := misplaced?_eq_some missed
  have needed := mem_dependents_iff.mp depends
  have later : other ∈ after := by
    have member := (covers other).mpr (mem_ids_of_dependency needed)
    rw [split] at member
    simpa [missing, different] using member
  obtain ⟨front, back, inner⟩ := List.append_of_mem later
  have outer : order = (before ++ id :: front) ++ other :: back := by
    rw [split, inner, List.append_assoc, List.cons_append]
  rcases settled.later _ other back outer id needed with behind | reaches
  · have distinct := settled.distinct
    rw [split, inner] at distinct
    have fresh := (List.nodup_cons.mp (List.nodup_append.mp distinct).2.1).1
    exact absurd (List.mem_append_right front (List.mem_cons_of_mem other behind)) fresh
  · exact .head needed reaches

section Placed

variable (settled : Settled graph.dependencies order) (covers : ∀ id, id ∈ order ↔ id ∈ graph.ids)
  (placed : misplaced? graph.dependents [] order = none)

include settled covers placed

/-- Where nothing is out of place, a dependent comes before its dependency. -/
theorem mem_before_of_dependency (needed : id ∈ graph.dependencies other)
    (split : order = before ++ id :: after) : other ∈ before := by
  have different : other ≠ id := by
    rintro rfl
    exact settled.apart other ((covers other).mpr (mem_ids_of_dependency needed)) needed
  rcases misplaced?_eq_none placed split other (mem_dependents_iff.mpr needed) different with
    earlier | nowhere
  · exact earlier
  · exact absurd nowhere List.not_mem_nil

theorem mem_before_of_reaches (reaches : Reaches graph.dependencies other id)
    (split : order = before ++ id :: after) : other ∈ before := by
  induction reaches generalizing before after with
  | single needed => exact mem_before_of_dependency settled covers placed needed split
  | @tail middle last _ needed ih =>
      obtain ⟨front, back, inner⟩ :=
        List.append_of_mem (mem_before_of_dependency settled covers placed needed split)
      have outer : order = front ++ middle :: (back ++ last :: after) := by
        rw [split, inner, List.append_assoc, List.cons_append]
      rw [inner]
      exact List.mem_append_left _ (ih outer)

theorem acyclic_of_placed (id : Nat) : ¬ Reaches graph.dependencies id id := by
  intro reaches
  obtain ⟨_, needed, _⟩ := Relation.TransGen.head'_iff.mp reaches
  obtain ⟨before, after, split⟩ :=
    List.append_of_mem ((covers id).mpr (mem_ids_of_dependency needed))
  have earlier := mem_before_of_reaches settled covers placed reaches split
  have distinct := settled.distinct
  rw [split] at distinct
  exact (List.nodup_append.mp distinct).2.2 id earlier id List.mem_cons_self rfl

/-- The namespace that finished first has no dependencies. -/
theorem exists_root_of_placed (inhabited : graph.ids ≠ []) : ∃ id, graph.root? = some id := by
  obtain ⟨front, first, split⟩ : ∃ front first, order = front ++ [first] := by
    rcases List.eq_nil_or_concat order with rfl | ⟨front, first, split⟩
    · obtain ⟨id, known⟩ := List.exists_mem_of_ne_nil _ inhabited
      exact absurd ((covers id).mpr known) List.not_mem_nil
    · exact ⟨front, first, by rw [split, List.concat_eq_append]⟩
  have alone : graph.dependencies first = [] := by
    refine List.eq_nil_iff_forall_not_mem.mpr fun dependency needed => ?_
    rcases settled.later front first [] split dependency needed with nowhere | back
    · exact List.not_mem_nil nowhere
    · exact acyclic_of_placed settled covers placed first (.head needed back)
  have known : first ∈ graph.ids :=
    (covers first).mp (split ▸ List.mem_append_right front List.mem_cons_self)
  have found : graph.root?.isSome := by
    rw [root?, List.find?_isSome]
    exact ⟨first, known, by rw [isRoot, alone]; rfl⟩
  exact Option.isSome_iff_exists.mp found

end Placed

/-- The check names a namespace on a cycle, or there is no cycle and then there is a root. -/
theorem onCycle?_spec
    (closed : ∀ id, ∀ dependency ∈ graph.dependencies id, dependency ∈ graph.ids) :
    match graph.onCycle? with
    | some id => Reaches graph.dependencies id id
    | none => (∀ id, ¬ Reaches graph.dependencies id id) ∧
        (graph.ids ≠ [] → ∃ id, graph.root? = some id) := by
  have searched := finishOrder_ids graph closed
  rw [onCycle?]
  cases found : finishOrder graph.dependencies graph.ids [] graph.ids with
  | error id =>
      rw [found] at searched
      exact .single searched
  | ok order =>
      rw [found] at searched
      obtain ⟨settled, covers⟩ := searched
      cases check : misplaced? graph.dependents [] order with
      | some other =>
          simpa only [check] using reaches_of_misplaced settled covers check
      | none =>
          simp only [check]
          exact ⟨acyclic_of_placed settled covers check,
            exists_root_of_placed settled covers check⟩

end Check

end ArchiveRemap.Graph
