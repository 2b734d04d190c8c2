import ArchiveRemap.Proofs.Namespace.Route
import Mathlib.Data.List.Lex
import Mathlib.Order.Bounds.Basic

/-!
Which of several shortest walks is found. Walks of one length are compared namespace by
namespace, in order of registration. Neighbours are taken in that order and trails leave the
queue in the order in which they came, so trails of one length stand in the queue from the
least to the greatest, and each is the least one to its end.
-/

namespace ArchiveRemap.Graph

variable {neighbors : Nat → List Nat} {source target : Nat}

/-! Walks of one length. A walk one hop longer comes where the shorter one came; its last
namespace decides only between walks that are the same up to there. -/

theorem concat_lt_concat_iff {left right : List Nat} {first second : Nat}
    (same : left.length = right.length) :
    left ++ [first] < right ++ [second] ↔
      left < right ∨ (left = right ∧ first < second) := by
  induction left generalizing right with
  | nil =>
      rw [List.length_nil, eq_comm, List.length_eq_zero_iff] at same
      subst right
      simp [List.cons_lt_cons_iff]
  | cons head left ih =>
      cases right with
      | nil => simp at same
      | cons other right =>
          simp only [List.cons_append, List.cons_lt_cons_iff, List.cons.injEq,
            ih (Nat.succ_injective same)]
          tauto

theorem reverse_cons_lt_iff {left right : List Nat} {first second : Nat}
    (same : left.length = right.length) :
    (first :: left).reverse < (second :: right).reverse ↔
      left.reverse < right.reverse ∨ (left = right ∧ first < second) := by
  rw [List.reverse_cons, List.reverse_cons, concat_lt_concat_iff, List.reverse_inj]
  rw [List.length_reverse, List.length_reverse, same]

theorem reverse_cons_le {left right : List Nat} (id : Nat)
    (same : left.length = right.length) (before : left.reverse ≤ right.reverse) :
    (id :: left).reverse ≤ (id :: right).reverse := by
  rcases before.lt_or_eq with less | equal
  · exact ((reverse_cons_lt_iff same).mpr (.inl less)).le
  · rw [List.reverse_inj.mp equal]

/-! What is taken keeps its order. -/

theorem takeFree_sublist (free candidates : List Nat) :
    (takeFree free candidates).1.Sublist candidates := by
  induction candidates generalizing free with
  | nil => exact .slnil
  | cons first rest ih =>
      by_cases member : first ∈ free
      · simpa [takeFree, member] using ih (free.erase first)
      · simpa [takeFree, member] using (ih free).cons first

theorem Frontier.length_eq {count : Nat} {free : List Nat} {queue : List (List Nat)}
    (frontier : Frontier neighbors source target count free queue) {trail : List Nat}
    (member : trail ∈ queue) : trail.length = count ∨ trail.length = count + 1 := by
  obtain ⟨near, far, rfl, nearLength, farLength⟩ := frontier.levels
  rcases List.mem_append.mp member with here | there
  · exact .inl (nearLength trail here)
  · exact .inr (farLength trail there)

/-- How the trails of a queue are ranked. The longer trails of a queue go on from trails that
have left it, and these came before all that are still there. -/
structure Ranked (neighbors : Nat → List Nat) (source : Nat) (queue : List (List Nat)) :
    Prop where
  sorted : queue.Pairwise fun first second =>
    first.length = second.length → first.reverse < second.reverse
  parents : ∀ far ∈ queue, ∀ near ∈ queue, far.length = near.length + 1 →
    far.tail.reverse < near.reverse
  least : ∀ trail ∈ queue, ∀ other, Trail neighbors source other →
    other.head? = trail.head? → other.length = trail.length → trail.reverse ≤ other.reverse

namespace Ranked

variable {count : Nat} {free : List Nat} {last : Nat} {earlier : List Nat}
  {rest : List (List Nat)}

theorem initial : Ranked neighbors source [[source]] := by
  constructor
  case sorted => exact List.pairwise_singleton _ _
  case parents => simp
  case least =>
    intro trail member other valid _ short
    rw [List.mem_singleton.mp member] at short ⊢
    cases valid with
    | start => exact le_rfl
    | next id tail near => simp at short

/-- The first trail of a queue comes before all others of its length. -/
theorem head_le (ranked : Ranked neighbors source ((last :: earlier) :: rest))
    {trail : List Nat} (member : trail ∈ (last :: earlier) :: rest)
    (same : trail.length = (last :: earlier).length) :
    (last :: earlier).reverse ≤ trail.reverse := by
  rcases List.mem_cons.mp member with rfl | later
  · exact le_rfl
  · exact ((List.pairwise_cons.mp ranked.sorted).1 trail later same.symm).le

/-- A trail that goes on from the first one of the queue is the least to its end: any other
walk of that length comes through a namespace that waits in the queue as well. -/
theorem least_of_taken (ranked : Ranked neighbors source ((last :: earlier) :: rest))
    (frontier : Frontier neighbors source target count free ((last :: earlier) :: rest))
    (short : (last :: earlier).length = count) {id : Nat} (stillFree : id ∈ free)
    {other : List Nat} (valid : Trail neighbors source other) (ends : other.head? = some id)
    (same : other.length = count + 1) :
    (id :: last :: earlier).reverse ≤ other.reverse := by
  cases valid with
  | start =>
      have := frontier.positive
      simp only [List.length_cons, List.length_nil] at same
      omega
  | @next before older _ tail near =>
      simp only [List.head?_cons, Option.some.injEq] at ends
      subst ends
      have length : (before :: older).length = count := Nat.succ_injective same
      have taken := frontier.seen before older tail length.le
      rcases frontier.closed before older tail taken with ⟨trail, member, meets⟩ | passed
      · have bound := frontier.least trail member _ tail meets.symm
        have waits : trail.length = count := by
          rcases frontier.length_eq member with here | longer
          · exact here
          · omega
        have first := ranked.head_le member (waits.trans short.symm)
        have second := ranked.least trail member _ tail meets.symm (length.trans waits.symm)
        exact reverse_cons_le _ (short.trans length.symm) (first.trans second)
      · exact absurd stillFree (passed.2 _ near)

theorem step (ranked : Ranked neighbors source ((last :: earlier) :: rest))
    (frontier : Frontier neighbors source target count free ((last :: earlier) :: rest))
    (short : (last :: earlier).length = count)
    (ordered : (neighbors last).Pairwise (· < ·)) :
    Ranked neighbors source (rest ++ (takeFree free (neighbors last)).1.map
      fun next => next :: last :: earlier) := by
  have ⟨front, back⟩ := List.pairwise_cons.mp ranked.sorted
  have spec := takeFree_spec (neighbors last) frontier.distinct
  have old : ∀ trail ∈ rest, trail ∈ (last :: earlier) :: rest :=
    fun trail => List.mem_cons_of_mem _
  have lengths : ∀ trail ∈ rest, trail.length = count ∨ trail.length = count + 1 :=
    fun trail member => frontier.length_eq (old trail member)
  have longer (id : Nat) : (id :: last :: earlier).length = count + 1 := by
    rw [List.length_cons, short]
  constructor
  case sorted =>
    refine List.pairwise_append.mpr ⟨back, ?_, ?_⟩
    · -- Two new trails differ in their last namespace only.
      refine List.pairwise_map.mpr ((ordered.sublist (takeFree_sublist free _)).imp ?_)
      exact fun less _ => (reverse_cons_lt_iff rfl).mpr (.inr ⟨rfl, less⟩)
    · -- A trail that is as long as the new ones goes on from one that came before `last`.
      intro trail member other new same
      obtain ⟨id, _, rfl⟩ := List.mem_map.mp new
      rw [longer] at same
      have before := ranked.parents trail (old trail member) _ List.mem_cons_self
        (by rw [same, short])
      cases trail with
      | nil => simp at same
      | cons head tail =>
          rw [List.length_cons] at same
          exact (reverse_cons_lt_iff ((Nat.succ_injective same).trans short.symm)).mpr
            (.inl before)
  case parents =>
    intro far farIn near nearIn apart
    rcases List.mem_append.mp nearIn with nearOld | nearNew
    · rcases List.mem_append.mp farIn with farOld | farNew
      · exact ranked.parents far (old far farOld) near (old near nearOld) apart
      · obtain ⟨id, _, rfl⟩ := List.mem_map.mp farNew
        rw [List.length_cons] at apart
        exact front near nearOld (Nat.succ_injective apart)
    · -- No trail is longer than the new ones.
      obtain ⟨id, _, rfl⟩ := List.mem_map.mp nearNew
      rw [longer] at apart
      rcases List.mem_append.mp farIn with farOld | farNew
      · have := lengths far farOld
        omega
      · obtain ⟨other, _, rfl⟩ := List.mem_map.mp farNew
        rw [longer] at apart
        omega
  case least =>
    intro trail member other valid ends same
    rcases List.mem_append.mp member with here | new
    · exact ranked.least trail (old trail here) other valid ends same
    · obtain ⟨id, taken, rfl⟩ := List.mem_map.mp new
      rw [longer] at same
      exact ranked.least_of_taken frontier short ((spec id).1.mp taken).1 valid ends same

end Ranked

/-- A search finds the least of the shortest walks. -/
theorem search_least (ordered : ∀ id, (neighbors id).Pairwise (· < ·)) (free : List Nat)
    (queue : List (List Nat)) (count : Nat)
    (frontier : Frontier neighbors source target count free queue)
    (ranked : Ranked neighbors source queue) {walk : List Nat}
    (found : search neighbors target free queue = some walk) {other : List Nat}
    (shortest : IsShortest neighbors source target other) : walk ≤ other := by
  induction free, queue using search.induct neighbors target generalizing count with
  | case1 free =>
      rw [search] at found
      cases found
  | case2 free rest ih => cases frontier.trails [] List.mem_cons_self
  | case3 free earlier rest =>
      rw [search, if_pos rfl, Option.some.injEq] at found
      subst found
      have trail := frontier.trails _ List.mem_cons_self
      have ends : other.reverse.head? = some target := by
        rw [List.head?_reverse, shortest.1.ends]
      have same : other.reverse.length = (target :: earlier).length := by
        have first := frontier.least _ List.mem_cons_self _ shortest.1.trail ends
        have second := shortest.2 _ trail.isWalk
        rw [List.length_reverse] at first second ⊢
        omega
      have least := ranked.least _ List.mem_cons_self _ shortest.1.trail ends same
      rwa [List.reverse_reverse] at least
  | case4 free last earlier rest missed ih =>
      rw [search, if_neg missed] at found
      have leading := frontier.leading
      exact ih _ (leading.step rfl missed) (ranked.step leading rfl (ordered last)) found

variable {graph : Graph}

theorem neighbors_pairwise (graph : Graph) (id : Nat) :
    (graph.neighbors id).Pairwise (· < ·) :=
  List.pairwise_lt_range.filter _

theorem shortest?_isLeast {walk : List Nat}
    (found : graph.shortest? source target = some walk) :
    IsLeast {walk | IsShortest graph.neighbors source target walk} walk := by
  refine ⟨isShortest_of_shortest? found, fun other shortest => ?_⟩
  have start : Frontier graph.neighbors source target 1 (graph.ids.erase source) [[source]] :=
    .initial List.nodup_range fun _ _ hop => mem_ids_of_near hop
  exact search_least (neighbors_pairwise graph) _ _ 1 start .initial found shortest

/-- Without fallbacks nothing is added to the walk, so nothing is taken out of it. -/
theorem route_direct_iff {path : List Nat} : graph.route (.direct source target) = .ok path ↔
    source ∈ graph.ids ∧ target ∈ graph.ids ∧
      graph.shortest? source target = some (source :: path) := by
  have grounded : (Request.direct source target).Grounded graph ↔
      source ∈ graph.ids ∧ target ∈ graph.ids := by
    constructor
    · intro grounded
      exact ⟨grounded.known _ (by simp [Request.direct]),
        grounded.known _ (by simp [Request.direct])⟩
    · rintro ⟨near, far⟩
      exact ⟨by simp [Request.direct, near, far], .inl rfl, .inl rfl⟩
  have same (walk : List Nat) : (Request.direct source target).lengthen walk = walk := by
    simp [Request.lengthen, Request.direct]
  rw [route_eq_ok_iff, grounded, and_assoc]
  refine and_congr_right fun _ => and_congr_right fun _ => ?_
  simp only [same]
  constructor
  · rintro ⟨walk, found, rfl⟩
    have shortest := isShortest_of_shortest? found
    have whole : source :: trimWalk walk = walk :=
      cons_trimWalk_of_nodup shortest.1 shortest.nodup
    rw [whole]
    exact found
  · intro found
    refine ⟨_, found, ?_⟩
    rw [trimWalk_nodup (isShortest_of_shortest? found).nodup]
    rfl

/-- A direct request has the route that has as few hops as any, and of all walks with so few
the one through the earliest registered namespaces, the first difference deciding. -/
theorem route_direct_eq_ok_iff {path : List Nat} :
    graph.route (.direct source target) = .ok path ↔
      source ∈ graph.ids ∧ target ∈ graph.ids ∧
      IsLeast {hops | ∃ walk, IsWalk graph.neighbors source target walk ∧
        walk.length = hops + 1} path.length ∧
      IsLeast {walk | IsShortest graph.neighbors source target walk} (source :: path) := by
  rw [route_direct_iff]
  refine and_congr_right fun _ => and_congr_right fun _ => ?_
  constructor
  · intro found
    have least := shortest?_isLeast found
    refine ⟨⟨⟨_, least.1.1, rfl⟩, ?_⟩, least⟩
    rintro hops ⟨walk, valid, length⟩
    have bound := least.1.2 walk valid
    rw [List.length_cons, length] at bound
    exact Nat.le_of_succ_le_succ bound
  · rintro ⟨-, least⟩
    obtain ⟨walk, found⟩ := exists_shortest?_iff.mpr least.1.1.reachable
    rw [found, (shortest?_isLeast found).unique least]

/-- Two bridges between the same namespaces: the one that is registered first is taken. -/
example : Graph.route ⟨[⟨"a", false, []⟩, ⟨"late", false, [0]⟩, ⟨"b", false, [3, 1]⟩,
    ⟨"later", false, [0]⟩]⟩ (.direct 0 2) = .ok [1, 2] := by decide +kernel

end ArchiveRemap.Graph
