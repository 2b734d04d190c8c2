import ArchiveRemap.Namespace.Route
import ArchiveRemap.Proofs.Namespace.Walk

/-!
Breadth-first search finds a shortest walk whenever there is a walk at all. The queue of
the search holds trails of two neighbouring lengths, shorter ones first. A namespace that is
no longer free waits at the end of a trail of the queue, or all its neighbours have been
taken; so when the queue runs dry, nothing that was missed can be reached.
-/

namespace ArchiveRemap.Graph

variable {neighbors : Nat → List Nat} {source target : Nat}

/-! Taking what is free. -/

theorem takeFree_spec (candidates : List Nat) {free : List Nat} (distinct : free.Nodup)
    (id : Nat) :
    (id ∈ (takeFree free candidates).1 ↔ id ∈ free ∧ id ∈ candidates) ∧
      (id ∈ (takeFree free candidates).2 ↔ id ∈ free ∧ id ∉ candidates) := by
  induction candidates generalizing free with
  | nil => simp [takeFree]
  | cons first rest ih =>
      by_cases member : first ∈ free
      · obtain ⟨taken, left⟩ := ih (distinct.erase first)
        simp only [takeFree, member, if_true, List.mem_cons, taken, left,
          distinct.mem_erase_iff]
        by_cases same : id = first
        · subst id
          simp [member]
        · simp [same]
      · obtain ⟨taken, left⟩ := ih distinct
        simp only [takeFree, member, if_false, List.mem_cons, taken, left]
        by_cases same : id = first
        · subst id
          simp [member]
        · simp [same]

theorem takeFree_nodup (candidates : List Nat) {free : List Nat} (distinct : free.Nodup) :
    (takeFree free candidates).2.Nodup := by
  induction candidates generalizing free with
  | nil => exact distinct
  | cons first rest ih =>
      by_cases member : first ∈ free
      · simpa [takeFree, member] using ih (distinct.erase first)
      · simpa [takeFree, member] using ih distinct

/-! The queue. -/

/-- What holds whenever the search looks at its queue: `count` is the length of the trails
at the front. Of the namespaces on trails no longer than that, none is free any more. -/
structure Frontier (neighbors : Nat → List Nat) (source target count : Nat)
    (free : List Nat) (queue : List (List Nat)) : Prop where
  distinct : free.Nodup
  positive : 0 < count
  trails : ∀ trail ∈ queue, Trail neighbors source trail
  least : ∀ trail ∈ queue, ∀ other, Trail neighbors source other →
    other.head? = trail.head? → trail.length ≤ other.length
  levels : ∃ near far, queue = near ++ far ∧ (∀ trail ∈ near, trail.length = count) ∧
    ∀ trail ∈ far, trail.length = count + 1
  seen : ∀ last earlier, Trail neighbors source (last :: earlier) →
    (last :: earlier).length ≤ count → last ∉ free
  closed : ∀ last earlier, Trail neighbors source (last :: earlier) → last ∉ free →
    (∃ trail ∈ queue, trail.head? = some last) ∨
      (last ≠ target ∧ ∀ next ∈ neighbors last, next ∉ free)

namespace Frontier

variable {count : Nat} {free : List Nat} {queue : List (List Nat)}

theorem initial {ids : List Nat} (distinct : ids.Nodup)
    (inside : ∀ id, ∀ next ∈ neighbors id, next ∈ ids) :
    Frontier neighbors source target 1 (ids.erase source) [[source]] := by
  have sourceTaken : source ∉ ids.erase source := distinct.not_mem_erase
  constructor
  case distinct => exact distinct.erase source
  case positive => omega
  case trails =>
    intro trail member
    rw [List.mem_singleton.mp member]
    exact .start
  case least =>
    intro trail member other valid _
    rw [List.mem_singleton.mp member]
    exact valid.length_pos
  case levels => exact ⟨[[source]], [], by simp⟩
  case seen =>
    intro last earlier valid short
    cases valid with
    | start => exact sourceTaken
    | next id tail near => simp at short
  case closed =>
    -- All but the source is free, and a neighbour of anything is listed.
    intro last earlier valid taken
    left
    refine ⟨[source], by simp, ?_⟩
    cases valid with
    | start => rfl
    | next id tail near =>
        by_cases same : last = source
        · rw [same]; rfl
        · exact absurd ((List.mem_erase_of_ne same).mpr (inside _ _ near)) taken

/-- When only longer trails are left, all that one more step reaches has been taken. -/
theorem advance (frontier : Frontier neighbors source target count free queue)
    (longer : ∀ trail ∈ queue, trail.length = count + 1) :
    Frontier neighbors source target (count + 1) free queue := by
  refine { frontier with
    positive := by omega
    levels := ⟨queue, [], by simp, longer, by simp⟩
    seen := ?_ }
  intro last earlier valid short
  by_cases old : (last :: earlier).length ≤ count
  · exact frontier.seen last earlier valid old
  · cases valid with
    | start =>
        have := frontier.positive
        simp only [List.length_cons, List.length_nil] at old
        omega
    | @next before older _ tail near =>
        simp only [List.length_cons] at short old
        have taken := frontier.seen before older tail (by simp only [List.length_cons]; omega)
        rcases frontier.closed before older tail taken with ⟨trail, member, same⟩ | passed
        · -- A trail of the queue is a shortest one, so `before` cannot end one of them.
          have bound := frontier.least trail member _ tail same.symm
          have := longer trail member
          simp only [List.length_cons] at bound
          omega
        · exact passed.2 last near

section Step

variable {last : Nat} {earlier : List Nat} {rest : List (List Nat)}

/-- A trail to a namespace that is still free is a shortest one if it goes on from the front of
the queue: a shorter one would have taken the namespace before. -/
theorem least_of_free
    (frontier : Frontier neighbors source target count free ((last :: earlier) :: rest))
    (short : (last :: earlier).length = count) {id : Nat} (stillFree : id ∈ free)
    {other : List Nat} (valid : Trail neighbors source other) (ends : other.head? = some id) :
    (id :: last :: earlier).length ≤ other.length := by
  by_contra below
  cases other with
  | nil => simp at ends
  | cons head tail =>
      simp only [List.head?_cons, Option.some.injEq] at ends
      subst head
      apply frontier.seen id tail valid ?_ stillFree
      simp only [List.length_cons] at below short ⊢
      omega

/-- Trails that go on from the front of the queue are of the second level. -/
theorem levels_step
    (frontier : Frontier neighbors source target count free ((last :: earlier) :: rest))
    (short : (last :: earlier).length = count) (taken : List Nat) :
    ∃ near far, (rest ++ taken.map fun next => next :: last :: earlier) = near ++ far ∧
      (∀ trail ∈ near, trail.length = count) ∧ ∀ trail ∈ far, trail.length = count + 1 := by
  obtain ⟨near, far, split, nearLength, farLength⟩ := frontier.levels
  cases near with
  | nil =>
      have := farLength (last :: earlier) (by rw [← List.nil_append far, ← split]; simp)
      omega
  | cons first near =>
      simp only [List.cons_append, List.cons.injEq] at split
      refine ⟨near, far ++ _, by rw [split.2, List.append_assoc],
        fun other member => nearLength other (List.mem_cons_of_mem _ member), ?_⟩
      intro other member
      rcases List.mem_append.mp member with old | new
      · exact farLength other old
      · obtain ⟨id, _, rfl⟩ := List.mem_map.mp new
        rw [List.length_cons, short]

/-- The first trail goes from the queue, and the trails to its free neighbours come in. -/
theorem step
    (frontier : Frontier neighbors source target count free ((last :: earlier) :: rest))
    (short : (last :: earlier).length = count) (missed : last ≠ target) :
    Frontier neighbors source target count (takeFree free (neighbors last)).2
      (rest ++ (takeFree free (neighbors last)).1.map
        fun next => next :: last :: earlier) := by
  have spec := takeFree_spec (neighbors last) frontier.distinct
  have trail := frontier.trails _ List.mem_cons_self
  constructor
  case distinct => exact takeFree_nodup _ frontier.distinct
  case positive => exact frontier.positive
  case trails =>
    intro other member
    rcases List.mem_append.mp member with old | new
    · exact frontier.trails other (List.mem_cons_of_mem _ old)
    · obtain ⟨id, taken, rfl⟩ := List.mem_map.mp new
      exact .next id trail ((spec id).1.mp taken).2
  case least =>
    intro other member shorter valid same
    rcases List.mem_append.mp member with old | new
    · exact frontier.least other (List.mem_cons_of_mem _ old) shorter valid same
    · obtain ⟨id, taken, rfl⟩ := List.mem_map.mp new
      exact frontier.least_of_free short ((spec id).1.mp taken).1 valid same
  case levels => exact frontier.levels_step short _
  case seen =>
    intro id tail valid bound stillFree
    exact frontier.seen id tail valid bound ((spec id).2.mp stillFree).1
  case closed =>
    -- What was taken just now waits at the end of the queue; what had been taken waits
    -- where it did, unless it ended the trail that went: its neighbours are taken now.
    intro id tail valid taken
    by_cases before : id ∈ free
    · have reached : id ∈ (takeFree free (neighbors last)).1 := by
        refine (spec id).1.mpr ⟨before, ?_⟩
        by_contra far
        exact taken ((spec id).2.mpr ⟨before, far⟩)
      left
      exact ⟨id :: last :: earlier,
        List.mem_append_right _ (List.mem_map_of_mem reached), rfl⟩
    · rcases frontier.closed id tail valid before with ⟨other, member, same⟩ | passed
      · rcases List.mem_cons.mp member with rfl | later
        · simp only [List.head?_cons, Option.some.injEq] at same
          subst id
          right
          exact ⟨missed, fun next near stillFree => ((spec next).2.mp stillFree).2 near⟩
        · exact .inl ⟨other, List.mem_append_left _ later, same⟩
      · right
        exact ⟨passed.1, fun next near stillFree =>
          passed.2 next near ((spec next).2.mp stillFree).1⟩

end Step

theorem leading {trail : List Nat} {rest : List (List Nat)}
    (frontier : Frontier neighbors source target count free (trail :: rest)) :
    Frontier neighbors source target trail.length free (trail :: rest) := by
  obtain ⟨near, far, split, nearLength, farLength⟩ := frontier.levels
  cases near with
  | nil =>
      rw [List.nil_append] at split
      rw [farLength trail (by rw [← split]; simp)]
      exact frontier.advance fun other member => farLength other (split ▸ member)
  | cons first near =>
      simp only [List.cons_append, List.cons.injEq] at split
      rw [nearLength trail (by rw [split.1]; simp)]
      exact frontier

/-- With nothing left in the queue, everything that can be reached has been passed. -/
theorem exhausted (frontier : Frontier neighbors source target count free []) {last : Nat}
    {earlier : List Nat} (valid : Trail neighbors source (last :: earlier)) :
    last ≠ target := by
  -- By induction on the trail: whatever it comes through was taken and then passed.
  have taken : last ∉ free := by
    generalize same : last :: earlier = trail at valid
    induction valid generalizing last earlier with
    | start =>
        cases same
        exact frontier.seen _ _ .start frontier.positive
    | next id tail near ih =>
        cases same
        rcases frontier.closed _ _ tail (ih rfl) with ⟨_, member, _⟩ | passed
        · cases member
        · exact passed.2 _ near
  rcases frontier.closed last earlier valid taken with ⟨_, member, _⟩ | passed
  · cases member
  · exact passed.1

end Frontier

/-- What a search finds is a shortest walk, and a search that finds nothing has missed
nothing. -/
theorem search_spec (free : List Nat) (queue : List (List Nat)) (count : Nat)
    (frontier : Frontier neighbors source target count free queue) :
    match search neighbors target free queue with
    | some walk => IsShortest neighbors source target walk
    | none => ∀ walk, ¬ IsWalk neighbors source target walk := by
  induction free, queue using search.induct neighbors target
    generalizing count with
  | case1 free =>
      rw [search]
      intro walk valid
      obtain ⟨earlier, trail⟩ := exists_trail valid.reachable
      exact frontier.exhausted trail rfl
  | case2 free rest ih => cases frontier.trails [] List.mem_cons_self
  | case3 free earlier rest =>
      rw [search, if_pos rfl]
      refine ⟨(frontier.trails _ List.mem_cons_self).isWalk, ?_⟩
      intro other valid
      have bound := frontier.least _ List.mem_cons_self _ valid.trail
        (by rw [List.head?_reverse, valid.ends, List.head?_cons])
      simpa using bound
  | case4 free last earlier rest missed ih =>
      rw [search, if_neg missed]
      exact ih _ (frontier.leading.step rfl missed)

end ArchiveRemap.Graph
