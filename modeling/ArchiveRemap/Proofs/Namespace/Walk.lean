import Mathlib.Data.List.Chain
import Mathlib.Data.List.Nodup
import Mathlib.Logic.Relation

/-!
Walks between namespaces: sequences in which each namespace is a neighbour of the one before
it. A walk can be cut at any namespace on it and put together again there, so a shortest walk
comes through no namespace twice and meets a neighbour of an end right beside that end.
-/

namespace ArchiveRemap.Graph

variable {neighbors : Nat → List Nat} {source target : Nat}

/-- A walk from one namespace to another, both ends included. -/
structure IsWalk (neighbors : Nat → List Nat) (source target : Nat) (walk : List Nat) :
    Prop where
  starts : walk.head? = some source
  ends : walk.getLast? = some target
  linked : walk.IsChain fun near next => next ∈ neighbors near

/-- A walk as the queue holds it, last namespace first. -/
inductive Trail (neighbors : Nat → List Nat) (source : Nat) : List Nat → Prop where
  | start : Trail neighbors source [source]
  | next {last : Nat} {earlier : List Nat} (id : Nat)
      (tail : Trail neighbors source (last :: earlier)) (near : id ∈ neighbors last) :
      Trail neighbors source (id :: last :: earlier)

theorem Trail.length_pos {trail : List Nat} (valid : Trail neighbors source trail) :
    0 < trail.length := by
  cases valid <;> simp

theorem Trail.getLast?_eq {trail : List Nat} (valid : Trail neighbors source trail) :
    trail.getLast? = some source := by
  induction valid with
  | start => rfl
  | next id tail near ih => rw [List.getLast?_cons_cons, ih]

theorem Trail.isWalk {last : Nat} {earlier : List Nat}
    (valid : Trail neighbors source (last :: earlier)) :
    IsWalk neighbors source last (last :: earlier).reverse := by
  constructor
  case starts => rw [List.head?_reverse, valid.getLast?_eq]
  case ends => simp
  case linked =>
    rw [List.isChain_reverse]
    generalize last :: earlier = trail at valid
    induction valid with
    | start => exact List.isChain_singleton _
    | next id tail near ih => exact List.isChain_cons_cons.mpr ⟨near, ih⟩

theorem IsWalk.trail {walk : List Nat} (valid : IsWalk neighbors source target walk) :
    Trail neighbors source walk.reverse := by
  have linked := valid.linked
  rw [← List.isChain_reverse] at linked
  have lastly : walk.reverse.getLast? = some source := by
    rw [List.getLast?_reverse, valid.starts]
  generalize walk.reverse = trail at linked lastly
  induction trail with
  | nil => simp at lastly
  | cons id earlier ih =>
      cases earlier with
      | nil =>
          simp only [List.getLast?_singleton, Option.some.injEq] at lastly
          subst id
          exact Trail.start
      | cons last earlier =>
          have ⟨near, rest⟩ := List.isChain_cons_cons.mp linked
          rw [List.getLast?_cons_cons] at lastly
          exact Trail.next id (ih rest lastly) near

theorem Trail.reachable {last : Nat} {earlier : List Nat}
    (valid : Trail neighbors source (last :: earlier)) :
    Relation.ReflTransGen (fun near next => next ∈ neighbors near) source last := by
  generalize same : last :: earlier = trail at valid
  induction valid generalizing last earlier with
  | start =>
      cases same
      exact .refl
  | next id tail near ih =>
      cases same
      exact (ih rfl).tail near

theorem IsWalk.reachable {walk : List Nat} (valid : IsWalk neighbors source target walk) :
    Relation.ReflTransGen (fun near next => next ∈ neighbors near) source target := by
  have trail := valid.trail
  have lastly : walk.reverse.head? = some target := by rw [List.head?_reverse, valid.ends]
  cases same : walk.reverse with
  | nil => simp [same] at lastly
  | cons last earlier =>
      rw [same] at trail lastly
      simp only [List.head?_cons, Option.some.injEq] at lastly
      subst target
      exact trail.reachable

theorem exists_trail
    (reached : Relation.ReflTransGen (fun near next => next ∈ neighbors near) source target) :
    ∃ earlier, Trail neighbors source (target :: earlier) := by
  induction reached with
  | refl => exact ⟨[], .start⟩
  | tail _ near ih =>
      obtain ⟨earlier, trail⟩ := ih
      exact ⟨_, .next _ trail near⟩

/-! Cutting and joining. -/

namespace IsWalk

variable {id : Nat} {before after : List Nat}

theorem upTo (valid : IsWalk neighbors source target (before ++ id :: after)) :
    IsWalk neighbors source id (before ++ [id]) := by
  constructor
  case starts =>
    rw [← valid.starts]
    cases before <;> rfl
  case ends => simp
  case linked =>
    have linked := valid.linked
    rw [List.append_cons] at linked
    exact linked.left_of_append

theorem startingAt (valid : IsWalk neighbors source target (before ++ id :: after)) :
    IsWalk neighbors id target (id :: after) := by
  constructor
  case starts => rfl
  case ends => rw [← valid.ends, List.getLast?_append_cons]
  case linked => exact valid.linked.right_of_append

theorem join (first : IsWalk neighbors source id (before ++ [id]))
    (second : IsWalk neighbors id target (id :: after)) :
    IsWalk neighbors source target (before ++ id :: after) := by
  constructor
  case starts =>
    rw [← first.starts]
    cases before <;> rfl
  case ends => rw [← second.ends, List.getLast?_append_cons]
  case linked => exact List.isChain_split.mpr ⟨first.linked, second.linked⟩

theorem two_le_length {walk : List Nat} (valid : IsWalk neighbors source target walk)
    (apart : source ≠ target) : 2 ≤ walk.length := by
  obtain ⟨starts, ends, -⟩ := valid
  match walk with
  | [] => cases starts
  | [first] =>
      simp only [List.head?_cons, List.getLast?_singleton, Option.some.injEq] at starts ends
      exact absurd (starts.symm.trans ends) apart
  | first :: second :: more => simp

theorem cons {walk : List Nat} {near : Nat} (valid : IsWalk neighbors near target walk)
    (hop : near ∈ neighbors source) : IsWalk neighbors source target (source :: walk) := by
  have starts := valid.starts
  cases walk with
  | nil => cases starts
  | cons first rest =>
      simp only [List.head?_cons, Option.some.injEq] at starts
      subst first
      constructor
      case starts => rfl
      case ends => rw [List.getLast?_cons_cons, valid.ends]
      case linked => exact List.isChain_cons_cons.mpr ⟨hop, valid.linked⟩

theorem concat {walk : List Nat} {near : Nat} (valid : IsWalk neighbors source near walk)
    (hop : target ∈ neighbors near) : IsWalk neighbors source target (walk ++ [target]) := by
  have ends := valid.ends
  obtain ⟨before, rfl⟩ := List.getLast?_eq_some_iff.mp ends
  rw [List.append_assoc]
  exact valid.join ⟨rfl, rfl, List.isChain_pair.mpr hop⟩

end IsWalk

/-- A walk that is not longer than any other one with the same ends. -/
def IsShortest (neighbors : Nat → List Nat) (source target : Nat) (walk : List Nat) : Prop :=
  IsWalk neighbors source target walk ∧
    ∀ other, IsWalk neighbors source target other → walk.length ≤ other.length

namespace IsShortest

variable {walk : List Nat}

theorem nodup (shortest : IsShortest neighbors source target walk) : walk.Nodup := by
  rw [List.nodup_iff_sublist]
  intro id twice
  -- Cutting out all between two visits of `id` would leave a shorter walk.
  obtain ⟨left, right, rfl, first, second⟩ := List.cons_sublist_iff.mp twice
  obtain ⟨before, between, rfl⟩ := List.append_of_mem first
  obtain ⟨more, after, rfl⟩ := List.append_of_mem (List.singleton_sublist.mp second)
  have front : IsWalk neighbors source id (before ++ [id]) := by
    have valid := shortest.1
    rw [List.append_assoc, List.cons_append] at valid
    exact valid.upTo
  have back : IsWalk neighbors id target (id :: after) := by
    have valid := shortest.1
    rw [← List.append_assoc] at valid
    exact valid.startingAt
  have bound := shortest.2 _ (front.join back)
  simp only [List.length_append, List.length_cons] at bound
  omega

/-- A neighbour of the source comes right after it. -/
theorem second_of_near {id : Nat} (shortest : IsShortest neighbors source target walk)
    (member : id ∈ walk) (near : id ∈ neighbors source) (other : id ≠ source) :
    ∃ after, walk = source :: id :: after := by
  obtain ⟨before, after, rfl⟩ := List.append_of_mem member
  -- Going straight to `id` must not be shorter than what stands before it.
  have bound := shortest.2 _ (shortest.1.startingAt.cons near)
  have starts := shortest.1.starts
  simp only [List.length_append, List.length_cons] at bound
  match before with
  | [] =>
      simp only [List.nil_append, List.head?_cons, Option.some.injEq] at starts
      exact absurd starts other
  | [first] =>
      simp only [List.cons_append, List.head?_cons, Option.some.injEq] at starts
      exact ⟨after, by rw [starts]; rfl⟩
  | first :: second :: more =>
      simp only [List.length_cons] at bound
      omega

/-- A namespace that the target is a neighbour of comes right before it. -/
theorem last_but_one_of_near {id : Nat} (shortest : IsShortest neighbors source target walk)
    (member : id ∈ walk) (near : target ∈ neighbors id) (other : id ≠ target) :
    ∃ before, walk = before ++ [id, target] := by
  obtain ⟨before, after, rfl⟩ := List.append_of_mem member
  have bound := shortest.2 _ (shortest.1.upTo.concat near)
  have ends := shortest.1.ends
  simp only [List.length_append, List.length_cons, List.length_nil] at bound
  match after with
  | [] =>
      simp only [List.getLast?_append, List.getLast?_singleton, Option.some_or,
        Option.some.injEq] at ends
      exact absurd ends other
  | [last] =>
      simp only [List.getLast?_append, List.getLast?_cons_cons, List.getLast?_singleton,
        Option.some_or, Option.some.injEq] at ends
      exact ⟨before, by rw [ends]⟩
  | first :: second :: more =>
      simp only [List.length_cons] at bound
      omega

theorem eq_singleton (shortest : IsShortest neighbors source source walk) :
    walk = [source] := by
  have bound := shortest.2 [source] ⟨rfl, rfl, List.isChain_singleton _⟩
  have starts := shortest.1.starts
  match walk with
  | [] => cases starts
  | [first] =>
      simp only [List.head?_cons, Option.some.injEq] at starts
      rw [starts]
  | first :: second :: more =>
      simp only [List.length_cons, List.length_nil] at bound
      omega

end IsShortest

end ArchiveRemap.Graph
