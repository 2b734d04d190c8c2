import ArchiveRemap.Proofs.Namespace.Route

/-!
Namespaces that are cut off from the root. The notices are about exactly those that no chain of
neighbours connects to the root. No route leads from such a namespace to one that is connected
to the root, or back; but two that are cut off together have routes between them.
-/

namespace ArchiveRemap.Graph

/-- One namespace leads to another by hops between neighbours. -/
def Connected (graph : Graph) : Nat → Nat → Prop :=
  Relation.ReflTransGen fun near next => next ∈ graph.neighbors near

section Unreached

variable {neighbors : Nat → List Nat} {ids free stack : List Nat} {root : Nat}

/-- What holds whenever the search looks at its stack: all that was taken can be reached from
the root, and has its neighbours taken or on the stack. -/
structure Spreading (neighbors : Nat → List Nat) (ids : List Nat) (root : Nat)
    (free stack : List Nat) : Prop where
  distinct : free.Nodup
  inside : ∀ id ∈ free, id ∈ ids
  started : root ∉ free ∨ root ∈ stack
  reached : ∀ id, id ∈ stack ∨ id ∈ ids ∧ id ∉ free →
    Relation.ReflTransGen (fun near next => next ∈ neighbors near) root id
  closed : ∀ id ∈ ids, id ∉ free → ∀ next ∈ neighbors id, next ∉ free ∨ next ∈ stack

namespace Spreading

theorem initial (distinct : ids.Nodup) : Spreading neighbors ids root ids [root] where
  distinct := distinct
  inside _ member := member
  started := .inr List.mem_cons_self
  reached id place := by
    rcases place with onStack | ⟨known, taken⟩
    · rw [List.mem_singleton.mp onStack]
    · exact absurd known taken
  closed id known taken := absurd known taken

/-- A namespace on top that was taken before has nothing to add. -/
theorem pass {id : Nat} (state : Spreading neighbors ids root free (id :: stack))
    (taken : id ∉ free) : Spreading neighbors ids root free stack where
  distinct := state.distinct
  inside := state.inside
  started := by
    rcases state.started with gone | onStack
    · exact .inl gone
    · exact (List.mem_cons.mp onStack).imp_left fun same => by rwa [same]
  reached other place := state.reached other (place.imp_left (List.mem_cons_of_mem _))
  closed other known gone next near := by
    rcases state.closed other known gone next near with left | onStack
    · exact .inl left
    · exact (List.mem_cons.mp onStack).imp_left fun same => by rwa [same]

/-- A free namespace on top is taken, and its neighbours wait on the stack. -/
theorem take {id : Nat} (state : Spreading neighbors ids root free (id :: stack))
    (isFree : id ∈ free) :
    Spreading neighbors ids root (free.erase id) ((neighbors id).reverse ++ stack) := by
  have here := state.reached id (.inl List.mem_cons_self)
  have waits {other : Nat} (onStack : other ∈ id :: stack) :
      other ∉ free.erase id ∨ other ∈ (neighbors id).reverse ++ stack := by
    rcases List.mem_cons.mp onStack with rfl | below
    · exact .inl state.distinct.not_mem_erase
    · exact .inr (List.mem_append_right _ below)
  have stays {other : Nat} (gone : other ∉ free) : other ∉ free.erase id :=
    fun member => gone (List.mem_of_mem_erase member)
  constructor
  case distinct => exact state.distinct.erase id
  case inside => exact fun other member => state.inside other (List.mem_of_mem_erase member)
  case started => exact state.started.elim (fun gone => .inl (stays gone)) waits
  case reached =>
    rintro other (onStack | ⟨known, gone⟩)
    · rcases List.mem_append.mp onStack with near | below
      · exact here.tail (List.mem_reverse.mp near)
      · exact state.reached other (.inl (List.mem_cons_of_mem _ below))
    · by_cases same : other = id
      · exact same ▸ here
      · exact state.reached other
          (.inr ⟨known, fun member => gone ((List.mem_erase_of_ne same).mpr member)⟩)
  case closed =>
    intro other known gone next near
    by_cases same : other = id
    · exact .inr (List.mem_append_left _ (List.mem_reverse.mpr (same ▸ near)))
    · have taken : other ∉ free := fun member => gone ((List.mem_erase_of_ne same).mpr member)
      exact (state.closed other known taken next near).elim (fun left => .inl (stays left)) waits

/-- With an empty stack, what is still free is what the root does not lead to. -/
theorem mem_iff_of_empty (state : Spreading neighbors ids root free [])
    (inside : ∀ id, ∀ next ∈ neighbors id, next ∈ ids) (known : root ∈ ids) (id : Nat) :
    id ∈ free ↔ id ∈ ids ∧
      ¬ Relation.ReflTransGen (fun near next => next ∈ neighbors near) root id := by
  constructor
  · intro isFree
    refine ⟨state.inside id isFree, fun reached => ?_⟩
    have taken : id ∈ ids ∧ id ∉ free := by
      clear isFree
      induction reached with
      | refl => exact ⟨known, state.started.resolve_right List.not_mem_nil⟩
      | tail _ near ih =>
          exact ⟨inside _ _ near,
            (state.closed _ ih.1 ih.2 _ near).resolve_right List.not_mem_nil⟩
    exact taken.2 isFree
  · rintro ⟨member, apart⟩
    by_contra gone
    exact apart (state.reached id (.inr ⟨member, gone⟩))

end Spreading

theorem mem_unreached_iff (inside : ∀ id, ∀ next ∈ neighbors id, next ∈ ids)
    (known : root ∈ ids) (state : Spreading neighbors ids root free stack) (id : Nat) :
    id ∈ unreached neighbors free stack ↔ id ∈ ids ∧
      ¬ Relation.ReflTransGen (fun near next => next ∈ neighbors near) root id := by
  fun_induction unreached neighbors free stack with
  | case1 free => exact state.mem_iff_of_empty inside known id
  | case2 free top rest isFree ih => exact ih (state.take isFree)
  | case3 free top rest taken ih => exact ih (state.pass taken)

end Unreached

variable {graph : Graph}

theorem root_mem_ids (there : graph.ids ≠ []) : graph.root ∈ graph.ids := by
  rw [root]
  cases found : graph.root? with
  | some id => exact List.mem_of_find?_eq_some found
  | none =>
      rw [ids, ne_eq, List.range_eq_nil] at there
      exact List.mem_range.mpr (Nat.pos_of_ne_zero there)

/-- A namespace is reported as cut off exactly if the root does not lead to it. -/
theorem mem_cutOff_iff {id : Nat} :
    id ∈ graph.cutOff ↔ id ∈ graph.ids ∧ ¬ graph.Connected graph.root id := by
  by_cases there : graph.ids = []
  · have none : graph.cutOff = [] := by
      rw [cutOff, there, unreached, dif_neg List.not_mem_nil, unreached]
    simp [none, there]
  · exact mem_unreached_iff (fun _ _ => mem_ids_of_near) (root_mem_ids there)
      (.initial List.nodup_range) id

/-! Chains of neighbours can be gone back. -/

theorem Connected.known {left right : Nat} (chain : graph.Connected left right)
    (known : left ∈ graph.ids) : right ∈ graph.ids := by
  induction chain with
  | refl => exact known
  | tail _ near _ => exact mem_ids_of_near near

theorem Connected.symm {left right : Nat} (chain : graph.Connected left right)
    (known : left ∈ graph.ids) : graph.Connected right left := by
  induction chain with
  | refl => exact .refl
  | tail before near ih =>
      exact .head (near_comm (Connected.known before known) near) ih

/-- The fallbacks of a grounded request are connected exactly if its ends are. -/
theorem connected_fallbacks_iff {request : Request} (grounded : request.Grounded graph) :
    graph.Connected request.sourceFallback request.targetFallback ↔
      graph.Connected request.source request.target := by
  have known {id : Nat} (member : id ∈ [request.source, request.sourceFallback,
      request.targetFallback, request.target]) : id ∈ graph.ids := grounded.known id member
  have out : graph.Connected request.source request.sourceFallback := by
    rcases grounded.sourceNear with same | near
    · rw [same]
      exact .refl
    · exact .single near
  have into : graph.Connected request.targetFallback request.target := by
    rcases grounded.targetNear with same | near
    · rw [same]
      exact .refl
    · exact .single near
  constructor
  · exact fun between => (out.trans between).trans into
  · exact fun whole => ((out.symm (known (by simp))).trans whole).trans
      (into.symm (known (by simp)))

/-! Requests that have no route. -/

/-- The answer to a request that has no route. -/
def refused (graph : Graph) (request : Request) (fault : RouteFault) :
    Except RequestError (List Nat) :=
  .error (.noPath (graph.name request.source) (graph.name request.target) fault
    graph.neighborTable)

/-- With known namespaces, a request has a route or is refused. -/
theorem route_refused_or_ok {request : Request}
    (known : ∀ id ∈ [request.source, request.sourceFallback, request.targetFallback,
      request.target], id ∈ graph.ids) :
    (∃ fault, graph.route request = graph.refused request fault) ∨
      ∃ path, graph.route request = .ok path := by
  obtain ⟨source, sourceFallback, targetFallback, target⟩ := request
  have none : [source, sourceFallback, targetFallback, target].find?
      (fun id => (graph.get? id).isNone) = none := by
    rw [List.find?_eq_none]
    intro id member
    have found := mem_ids_iff.mp (known id member)
    simp [Option.isSome_iff_ne_none.mp found]
  simp only [route, none]
  split
  · exact .inl ⟨_, rfl⟩
  · split
    · exact .inl ⟨_, rfl⟩
    · cases graph.shortest? sourceFallback targetFallback with
      | none => exact .inl ⟨_, rfl⟩
      | some walk => exact .inr ⟨_, rfl⟩

/-- A namespace that is not in the graph is another error. -/
theorem known_of_refused {request : Request} {fault : RouteFault}
    (refusal : graph.route request = graph.refused request fault) :
    ∀ id ∈ [request.source, request.sourceFallback, request.targetFallback, request.target],
      id ∈ graph.ids := by
  obtain ⟨source, sourceFallback, targetFallback, target⟩ := request
  intro id member
  rw [mem_ids_iff]
  simp only [route] at refusal
  split at refusal
  · cases refusal
  · rename_i none
    simpa [Option.isSome_iff_ne_none] using List.find?_eq_none.mp none id member

/-- Exactly the requests with known namespaces that lack a fallback nearby or a chain of
neighbours between their ends are refused. -/
theorem refused_iff {request : Request} :
    (∃ fault, graph.route request = graph.refused request fault) ↔
      (∀ id ∈ [request.source, request.sourceFallback, request.targetFallback, request.target],
        id ∈ graph.ids) ∧
      ¬ (request.Grounded graph ∧ graph.Connected request.source request.target) := by
  constructor
  · rintro ⟨fault, refusal⟩
    refine ⟨known_of_refused refusal, ?_⟩
    rintro ⟨grounded, chain⟩
    obtain ⟨walk, shortest⟩ :=
      exists_shortest?_iff.mpr ((connected_fallbacks_iff grounded).mpr chain)
    have found := route_eq_ok_iff.mpr ⟨grounded, walk, shortest, rfl⟩
    rw [refusal] at found
    cases found
  · rintro ⟨known, missing⟩
    refine (route_refused_or_ok known).resolve_right ?_
    rintro ⟨path, found⟩
    obtain ⟨grounded, walk, shortest, -⟩ := route_eq_ok_iff.mp found
    exact missing ⟨grounded,
      (connected_fallbacks_iff grounded).mp (exists_shortest?_iff.mp ⟨walk, shortest⟩)⟩

/-- Of two namespaces with a chain of neighbours between them, both are cut off or none. -/
theorem Connected.mem_cutOff_iff {left right : Nat} (chain : graph.Connected left right)
    (known : left ∈ graph.ids) : left ∈ graph.cutOff ↔ right ∈ graph.cutOff := by
  rw [Graph.mem_cutOff_iff, Graph.mem_cutOff_iff]
  constructor
  · exact fun cut => ⟨chain.known known, fun here => cut.2 (here.trans (chain.symm known))⟩
  · exact fun cut => ⟨known, fun here => cut.2 (here.trans chain)⟩

/-- The notices are about the namespaces that the root does not lead to. A request from or to
one of them is refused, unless both its ends are cut off and lead to each other. -/
theorem route_of_cutOff_refused_iff (graph : Graph) :
    (∀ id, id ∈ graph.cutOff ↔ id ∈ graph.ids ∧ ¬ graph.Connected graph.root id) ∧
    ∀ request : Request, request.source ∈ graph.cutOff ∨ request.target ∈ graph.cutOff →
      ((∃ fault, graph.route request = graph.refused request fault) ↔
        (∀ id ∈ [request.source, request.sourceFallback, request.targetFallback,
          request.target], id ∈ graph.ids) ∧
        ¬ (request.source ∈ graph.cutOff ∧ request.target ∈ graph.cutOff ∧
          request.Grounded graph ∧ graph.Connected request.source request.target)) := by
  refine ⟨fun id => mem_cutOff_iff, fun request cut => ?_⟩
  rw [refused_iff]
  refine and_congr_right fun known => not_congr ?_
  constructor
  · rintro ⟨grounded, chain⟩
    have both := chain.mem_cutOff_iff (known _ (by simp))
    exact ⟨cut.elim id both.mpr, cut.elim both.mp id, grounded, chain⟩
  · exact fun together => together.2.2

/-- Beside the root an island of two namespaces. -/
def islandGraph : Graph :=
  ⟨[⟨"official", false, []⟩, ⟨"island", false, []⟩, ⟨"islet", true, [1]⟩]⟩

theorem cutOff_islandGraph : islandGraph.cutOff = [1, 2] := by
  have searched : unreached islandGraph.neighbors [0, 1, 2] [0] = [1, 2] := by cbv
  exact searched

/-- From the root to the island there is no route. -/
theorem route_of_cutOff_refused_iff_island :
    islandGraph.cutOff = [1, 2] ∧
      ∃ fault, islandGraph.route (.direct 0 2) = islandGraph.refused (.direct 0 2) fault := by
  have cut : 2 ∈ islandGraph.cutOff := by simp [cutOff_islandGraph]
  refine ⟨cutOff_islandGraph, ((route_of_cutOff_refused_iff islandGraph).2 _ (.inr cut)).mpr ?_⟩
  refine ⟨by decide +kernel, fun together => ?_⟩
  exact absurd together.1 (by simp [cutOff_islandGraph, Request.direct])

theorem onCycle?_islandGraph : islandGraph.onCycle? = none := by
  have ordered : finishOrder islandGraph.dependencies islandGraph.ids [] islandGraph.ids =
      .ok [2, 1, 0] := by cbv
  rw [onCycle?, ordered]
  decide +kernel

/-- On the island there is one, in spite of the notices about both its ends. -/
theorem route_on_island :
    build [⟨"official", false, []⟩, ⟨"island", false, []⟩, ⟨"islet", true, ["island"]⟩] =
        .ok islandGraph ∧ islandGraph.cutOff = [1, 2] ∧
      islandGraph.notices = [.cutOff "island" "official", .cutOff "islet" "official"] ∧
        islandGraph.route (.direct 1 2) = .ok [2] := by
  refine ⟨build_of_resolved (by decide +kernel) rfl onCycle?_islandGraph (by decide +kernel),
    cutOff_islandGraph, ?_, by decide +kernel⟩
  rw [notices, cutOff_islandGraph]
  rfl

end ArchiveRemap.Graph
