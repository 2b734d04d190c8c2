import ArchiveRemap.Namespace.Building
import ArchiveRemap.Proofs.Namespace.Search

/-!
Routes. A request has a route exactly when its namespaces are known, each end is its own
fallback or a neighbour of it, and the fallbacks are connected; the route then leads from the
source to the target, hop by hop between neighbours. Only one detour is taken out of a
route, so it comes back to a namespace exactly when its walk has more than one.
-/

namespace ArchiveRemap

namespace Request

/-- A walk between the fallbacks, with the ends that are not their own fallbacks. -/
def lengthen (request : Request) (walk : List Nat) : List Nat :=
  let walk := if request.target ≠ request.targetFallback then walk ++ [request.target] else walk
  if request.source ≠ request.sourceFallback then request.source :: walk else walk

/-- What a request has to be for the search to begin. -/
structure Grounded (graph : Graph) (request : Request) : Prop where
  known : ∀ id ∈ [request.source, request.sourceFallback, request.targetFallback,
    request.target], id ∈ graph.ids
  sourceNear : request.source = request.sourceFallback ∨
    request.sourceFallback ∈ graph.neighbors request.source
  targetNear : request.target = request.targetFallback ∨
    request.target ∈ graph.neighbors request.targetFallback

end Request

namespace Graph

variable {graph : Graph} {request : Request}

theorem mem_ids_iff {id : Nat} : id ∈ graph.ids ↔ (graph.get? id).isSome := by
  simp [ids, size, get?]

theorem mem_ids_of_near {id near : Nat} (hop : near ∈ graph.neighbors id) :
    near ∈ graph.ids :=
  (List.mem_filter.mp hop).1

theorem near_comm {id near : Nat} (known : id ∈ graph.ids) (hop : near ∈ graph.neighbors id) :
    id ∈ graph.neighbors near := by
  have either := (List.mem_filter.mp hop).2
  exact List.mem_filter.mpr ⟨known, by rw [Bool.or_comm]; exact either⟩

theorem shortest?_spec (graph : Graph) (source target : Nat) :
    match graph.shortest? source target with
    | some walk => IsShortest graph.neighbors source target walk
    | none => ∀ walk, ¬ IsWalk graph.neighbors source target walk :=
  search_spec _ _ 1 (.initial List.nodup_range fun _ _ hop => mem_ids_of_near hop)

theorem isShortest_of_shortest? {source target : Nat} {walk : List Nat}
    (found : graph.shortest? source target = some walk) :
    IsShortest graph.neighbors source target walk := by
  have spec := shortest?_spec graph source target
  rw [found] at spec
  exact spec

theorem exists_shortest?_iff {source target : Nat} :
    (∃ walk, graph.shortest? source target = some walk) ↔
      Relation.ReflTransGen (fun near next => next ∈ graph.neighbors near) source target := by
  constructor
  · rintro ⟨walk, found⟩
    exact (isShortest_of_shortest? found).1.reachable
  · intro reached
    obtain ⟨earlier, trail⟩ := exists_trail reached
    have spec := shortest?_spec graph source target
    cases found : graph.shortest? source target with
    | some walk => exact ⟨walk, rfl⟩
    | none =>
        rw [found] at spec
        exact absurd trail.isWalk (spec _)

/-! The walk that is trimmed. -/

theorem lengthen_isWalk {walk : List Nat} (grounded : request.Grounded graph)
    (valid : IsWalk graph.neighbors request.sourceFallback request.targetFallback walk) :
    IsWalk graph.neighbors request.source request.target (request.lengthen walk) := by
  have ending : IsWalk graph.neighbors request.sourceFallback request.target
      (if request.target ≠ request.targetFallback then walk ++ [request.target] else walk) := by
    split
    · rename_i other
      exact valid.concat (grounded.targetNear.resolve_left other)
    · rename_i same
      rw [not_not.mp same]
      exact valid
  by_cases same : request.source = request.sourceFallback
  · rw [Request.lengthen, if_neg (not_not.mpr same), same]
    exact ending
  · rw [Request.lengthen, if_pos same]
    exact ending.cons (grounded.sourceNear.resolve_left same)

/-- A request has the route that is trimmed out of a shortest walk between its fallbacks. -/
theorem route_eq_ok_iff {path : List Nat} :
    graph.route request = .ok path ↔
      request.Grounded graph ∧ ∃ walk,
        graph.shortest? request.sourceFallback request.targetFallback = some walk ∧
          path = trimWalk (request.lengthen walk) := by
  obtain ⟨source, sourceFallback, targetFallback, target⟩ := request
  simp only [route]
  cases foreign : [source, sourceFallback, targetFallback, target].find? fun id =>
      (graph.get? id).isNone with
  | some id =>
      have unknown := List.find?_some foreign
      have member := List.mem_of_find?_eq_some foreign
      simp only [reduceCtorEq, false_iff, not_and]
      intro grounded
      have known := mem_ids_iff.mp (grounded.known id member)
      simp only [Option.isNone_iff_eq_none] at unknown
      simp [unknown] at known
  | none =>
      have known : ∀ id ∈ [source, sourceFallback, targetFallback, target],
          id ∈ graph.ids := by
        intro id member
        have here := List.find?_eq_none.mp foreign id member
        rw [mem_ids_iff]
        simpa [Option.isSome_iff_ne_none] using here
      by_cases targetNear : target = targetFallback ∨ target ∈ graph.neighbors targetFallback
      · by_cases sourceNear : source = sourceFallback ∨
            sourceFallback ∈ graph.neighbors source
        · have grounded : Request.Grounded graph
              ⟨source, sourceFallback, targetFallback, target⟩ :=
            ⟨known, sourceNear, targetNear⟩
          rw [if_neg (by simpa [adjacent, or_iff_not_imp_left] using targetNear),
            if_neg (by simpa [adjacent, or_iff_not_imp_left] using sourceNear)]
          cases found : graph.shortest? sourceFallback targetFallback with
          | none => simp
          | some walk =>
              simp only [Except.ok.injEq, Option.some.injEq, grounded, true_and,
                exists_eq_left', Request.lengthen]
              exact eq_comm
        · rw [if_neg (by simpa [adjacent, or_iff_not_imp_left] using targetNear),
            if_pos (by simpa [adjacent, or_iff_not_imp_left] using sourceNear)]
          simp only [reduceCtorEq, false_iff, not_and]
          exact fun grounded => absurd grounded.sourceNear sourceNear
      · rw [if_pos (by simpa [adjacent, or_iff_not_imp_left] using targetNear)]
        simp only [reduceCtorEq, false_iff, not_and]
        exact fun grounded => absurd grounded.targetNear targetNear

/-! Trimming. -/

theorem trimWalk_bounce (first second : Nat) (rest : List Nat) :
    trimWalk (first :: second :: first :: rest) = rest := by
  simp [trimWalk]

/-- A detour at the end goes if there is none at the head. -/
theorem trimWalk_doubling (first last near : Nat) (front : List Nat)
    (headOn : (first :: front ++ [last, near] ++ [last])[2]? ≠ some first) :
    trimWalk (first :: front ++ [last, near] ++ [last]) = front ++ [last] := by
  have noBounce : (first :: front ++ [last, near] ++ [last])[0]? ≠
      (first :: front ++ [last, near] ++ [last])[2]? := fun same => headOn same.symm
  simp only [trimWalk, noBounce, decide_false, Bool.and_false, Bool.false_eq_true, if_false]
  rw [if_pos (by simp)]
  simp [List.take_append, List.take_of_length_le]

theorem trimWalk_nodup {walk : List Nat} (distinct : walk.Nodup) :
    trimWalk walk = walk.drop 1 := by
  have differ : ∀ left right, left < walk.length → right < walk.length → left ≠ right →
      walk[left]? ≠ walk[right]? := by
    intro left right leftIn rightIn other same
    rw [List.getElem?_eq_getElem leftIn, List.getElem?_eq_getElem rightIn,
      Option.some.injEq] at same
    exact other ((distinct.getElem_inj_iff).mp same)
  by_cases long : 2 < walk.length
  · have headOn := differ 0 2 (by omega) long (by omega)
    have tailOn := differ (walk.length - 1) (walk.length - 3) (by omega) (by omega) (by omega)
    simp only [trimWalk, headOn, tailOn, decide_false, Bool.and_false, Bool.false_eq_true,
      if_false]
  · simp [trimWalk, long]

/-- Nothing goes from a walk without repeats but its source, which no route names. -/
theorem cons_trimWalk_of_nodup {neighbors : Nat → List Nat} {source target : Nat}
    {walk : List Nat} (valid : IsWalk neighbors source target walk) (distinct : walk.Nodup) :
    source :: trimWalk walk = walk := by
  have starts := valid.starts
  rw [trimWalk_nodup distinct]
  cases walk with
  | nil => cases starts
  | cons first rest =>
      cases starts
      rfl

theorem trimWalk_isWalk {neighbors : Nat → List Nat} {source target : Nat} {walk : List Nat}
    (valid : IsWalk neighbors source target walk) :
    IsWalk neighbors source target (source :: trimWalk walk) := by
  obtain ⟨starts, ends, linked⟩ := valid
  cases walk with
  | nil => cases starts
  | cons first rest =>
      simp only [List.head?_cons, Option.some.injEq] at starts
      subst first
      simp only [trimWalk]
      split
      · -- The walk is back at its source after two hops, so what follows still fits.
        rename_i bounced
        simp only [Bool.and_eq_true, decide_eq_true_eq] at bounced
        match rest, bounced with
        | second :: third :: rest, bounced =>
            simp only [List.getElem?_cons_zero, List.getElem?_cons_succ,
              Option.some.injEq] at bounced
            obtain ⟨-, rfl⟩ := bounced
            constructor
            case starts => rfl
            case ends =>
              rw [← ends, List.getLast?_cons_cons, List.getLast?_cons_cons]
              rfl
            case linked =>
              have after := (List.isChain_cons_cons.mp linked).2
              exact (List.isChain_cons_cons.mp after).2
      · split
        · -- What is left is an initial part that ends in the target already.
          rename_i doubled
          simp only [Bool.and_eq_true, decide_eq_true_eq] at doubled
          obtain ⟨long, same⟩ := doubled
          have kept : source :: ((source :: rest).take ((source :: rest).length - 2)).drop 1 =
              (source :: rest).take ((source :: rest).length - 2) := by
            obtain ⟨count, total⟩ := Nat.exists_eq_add_of_le long
            rw [show (source :: rest).length - 2 = count + 1 by omega]
            simp
          rw [kept]
          constructor
          case starts =>
            rw [List.head?_take, if_neg (by omega)]
            rfl
          case linked => exact linked.take _
          case ends =>
            rw [List.getLast?_take, if_neg (by omega),
              show (source :: rest).length - 2 - 1 = (source :: rest).length - 3 by omega, ← same,
              ← List.getLast?_eq_getElem?, ends]
            rfl
        · exact ⟨rfl, ends, linked⟩

/-- Routes are found exactly where there are any, and lead to the target by hops between
neighbours. -/
theorem route_ok_iff_connected (graph : Graph) (request : Request) :
    ((∃ path, graph.route request = .ok path) ↔
      (∀ id ∈ [request.source, request.sourceFallback, request.targetFallback,
        request.target], id ∈ graph.ids) ∧
      (request.target = request.targetFallback ∨
        request.target ∈ graph.neighbors request.targetFallback) ∧
      (request.source = request.sourceFallback ∨
        request.source ∈ graph.neighbors request.sourceFallback) ∧
      Relation.ReflTransGen (fun near next => next ∈ graph.neighbors near)
        request.sourceFallback request.targetFallback) ∧
    ∀ path, graph.route request = .ok path →
      (request.source :: path).IsChain (fun near next => next ∈ graph.neighbors near) ∧
      (request.source :: path).getLast? = some request.target ∧
      (path = [] → request.source = request.target) := by
  constructor
  · constructor
    · rintro ⟨path, found⟩
      obtain ⟨grounded, walk, shortest, -⟩ := route_eq_ok_iff.mp found
      refine ⟨grounded.known, grounded.targetNear, ?_, exists_shortest?_iff.mp ⟨walk, shortest⟩⟩
      exact grounded.sourceNear.imp_right (near_comm (grounded.known _ (by simp)))
    · rintro ⟨known, targetNear, sourceNear, reached⟩
      obtain ⟨walk, shortest⟩ := exists_shortest?_iff.mpr reached
      have grounded : request.Grounded graph :=
        ⟨known, sourceNear.imp_right (near_comm (known _ (by simp))), targetNear⟩
      exact ⟨_, route_eq_ok_iff.mpr ⟨grounded, walk, shortest, rfl⟩⟩
  · intro path found
    obtain ⟨grounded, walk, shortest, rfl⟩ := route_eq_ok_iff.mp found
    have valid := trimWalk_isWalk
      (lengthen_isWalk grounded (isShortest_of_shortest? shortest).1)
    refine ⟨valid.linked, valid.ends, fun empty => ?_⟩
    have ends := valid.ends
    rw [empty] at ends
    exact Option.some.inj ends

/-! Detours. A shortest walk between the fallbacks comes nowhere twice, so only the ends that
are added to it can. The source then is the second on the walk, the target the last but
one. -/

section Detours

variable {neighbors : Nat → List Nat} {walk : List Nat}

theorem third_ne_head {first : Nat} {rest : List Nat} (distinct : (first :: rest).Nodup)
    (more : List Nat) (long : 1 < rest.length) :
    (first :: rest ++ more)[2]? ≠ some first := by
  rw [List.cons_append, List.getElem?_cons_succ, List.getElem?_append_left long]
  exact fun same => (List.nodup_cons.mp distinct).1 (List.mem_of_getElem? same)

theorem trimWalk_cons_nodup {source fallback target : Nat}
    (shortest : IsShortest neighbors fallback target walk)
    (near : source ∈ neighbors fallback) (other : source ≠ fallback) :
    (source :: trimWalk (source :: walk)).Nodup := by
  have distinct := shortest.nodup
  by_cases member : source ∈ walk
  · obtain ⟨after, rfl⟩ := shortest.second_of_near member near other
    rw [trimWalk_bounce]
    exact (List.nodup_cons.mp distinct).2
  · have all := List.nodup_cons.mpr ⟨member, distinct⟩
    rw [trimWalk_nodup all]
    exact all

theorem trimWalk_concat_nodup {source fallback target : Nat}
    (shortest : IsShortest neighbors source fallback walk)
    (near : fallback ∈ neighbors target) (other : target ≠ fallback) :
    (source :: trimWalk (walk ++ [target])).Nodup := by
  have distinct := shortest.nodup
  have starts := shortest.1.starts
  by_cases member : target ∈ walk
  · obtain ⟨before, rfl⟩ := shortest.last_but_one_of_near member near other
    cases before with
    | nil =>
        simp only [List.nil_append, List.head?_cons, Option.some.injEq] at starts
        subst source
        change (target :: trimWalk (target :: fallback :: target :: [])).Nodup
        rw [trimWalk_bounce]
        exact List.nodup_singleton _
    | cons first front =>
        simp only [List.cons_append, List.head?_cons, Option.some.injEq] at starts
        subst first
        have kept := trimWalk_doubling source target fallback front
          (third_ne_head distinct [target] (by simp))
        rw [kept]
        refine distinct.sublist ?_
        simp
  · have all : (walk ++ [target]).Nodup :=
      List.nodup_append.mpr ⟨distinct, List.nodup_singleton _, by
        intro id here last lastHere same
        rw [List.mem_singleton.mp lastHere] at same
        exact member (same ▸ here)⟩
    cases walk with
    | nil => cases starts
    | cons first rest =>
        simp only [List.head?_cons, Option.some.injEq] at starts
        subst first
        rw [trimWalk_nodup all]
        exact all

/-- Without a bounce or a doubling a walk that returns to its source is not shortened. -/
theorem mem_trimWalk_of_return {source : Nat} (absent : source ∉ walk)
    (long : 2 ≤ walk.length) : source ∈ trimWalk (source :: (walk ++ [source])) := by
  simp only [trimWalk]
  split
  · rename_i bounced
    simp only [Bool.and_eq_true, decide_eq_true_eq, List.getElem?_cons_zero,
      List.getElem?_cons_succ] at bounced
    rw [List.getElem?_append_left long] at bounced
    exact absurd (List.mem_of_getElem? bounced.2.symm) absent
  · split
    · rename_i doubled
      simp only [Bool.and_eq_true, decide_eq_true_eq] at doubled
      have last : (source :: (walk ++ [source]))[walk.length + 1]? = some source := by simp
      have inner : (source :: (walk ++ [source]))[walk.length - 1]? =
          walk[walk.length - 2]? := by
        rw [show walk.length - 1 = (walk.length - 2) + 1 by omega, List.getElem?_cons_succ,
          List.getElem?_append_left (by omega)]
      have same := doubled.2
      have total : (source :: (walk ++ [source])).length = walk.length + 2 := by simp
      rw [total, show walk.length + 2 - 1 = walk.length + 1 by omega,
        show walk.length + 2 - 3 = walk.length - 1 by omega, last, inner] at same
      exact absurd (List.mem_of_getElem? same.symm) absent
    · simp

section Both

variable {source sourceFallback targetFallback target : Nat}

/-- The bounce at the head goes; what is left has the target twice if the walk had it. -/
theorem trimWalk_both_nodup_iff_of_source_mem
    (shortest : IsShortest neighbors sourceFallback targetFallback walk)
    (sourceNear : source ∈ neighbors sourceFallback) (sourceOther : source ≠ sourceFallback)
    (targetNear : targetFallback ∈ neighbors target) (targetOther : target ≠ targetFallback)
    (sourceOn : source ∈ walk) :
    (source :: trimWalk (source :: (walk ++ [target]))).Nodup ↔
      ¬ (source = target ∨ (source ≠ targetFallback ∧ target ∈ walk)) := by
  have distinct := shortest.nodup
  have ends := shortest.1.ends
  obtain ⟨after, rfl⟩ := shortest.second_of_near sourceOn sourceNear sourceOther
  have rest := (List.nodup_cons.mp distinct).2
  rw [List.cons_append, List.cons_append, trimWalk_bounce]
  have twice : (source :: (after ++ [target])).Nodup ↔ target ∉ source :: after := by
    rw [← List.cons_append, List.nodup_append]
    constructor
    · exact fun all member => all.2.2 target member target (by simp) rfl
    · intro absent
      refine ⟨rest, List.nodup_singleton _, ?_⟩
      rintro id here last lastHere rfl
      exact absent (List.mem_singleton.mp lastHere ▸ here)
  rw [twice, not_iff_not]
  constructor
  · intro member
    rcases List.mem_cons.mp member with same | later
    · exact .inl same.symm
    · right
      constructor
      · rintro rfl
        -- The source would be the last on the walk, with the target after it.
        have lastly : source ∈ after := by
          cases after with
          | nil => cases later
          | cons next more =>
              rw [List.getLast?_cons_cons, List.getLast?_cons_cons] at ends
              exact List.mem_of_getLast? ends
        exact (List.nodup_cons.mp rest).1 lastly
      · simp [later]
  · rintro (same | ⟨between, member⟩)
    · exact same ▸ List.mem_cons_self
    · rcases List.mem_cons.mp member with same | later
      · -- The target would be the first of the walk and the last but one.
        subst target
        obtain ⟨before, split⟩ := shortest.last_but_one_of_near member targetNear targetOther
        cases before with
        | nil =>
            simp only [List.nil_append, List.cons.injEq, true_and] at split
            exact absurd split.1 between
        | cons first front =>
            simp only [List.cons_append, List.cons.injEq] at split
            have again : sourceFallback ∈ source :: after := by rw [split.2]; simp
            exact absurd again (List.nodup_cons.mp distinct).1
      · exact later

/-- Only the target doubles back, and that goes. -/
theorem trimWalk_both_nodup_of_target_mem
    (shortest : IsShortest neighbors sourceFallback targetFallback walk)
    (targetNear : targetFallback ∈ neighbors target) (targetOther : target ≠ targetFallback)
    (sourceOff : source ∉ walk) (targetOn : target ∈ walk) :
    (source :: trimWalk (source :: (walk ++ [target]))).Nodup := by
  have all := List.nodup_cons.mpr ⟨sourceOff, shortest.nodup⟩
  obtain ⟨before, rfl⟩ := shortest.last_but_one_of_near targetOn targetNear targetOther
  have kept := trimWalk_doubling source target targetFallback before
    (third_ne_head all [target] (by simp))
  rw [← List.cons_append, ← List.cons_append, kept]
  refine all.sublist ?_
  simp

theorem trimWalk_both_nodup_iff_of_not_mem
    (shortest : IsShortest neighbors sourceFallback targetFallback walk)
    (sourceOff : source ∉ walk) (targetOff : target ∉ walk) :
    (source :: trimWalk (source :: (walk ++ [target]))).Nodup ↔
      ¬ (source = target ∧ sourceFallback ≠ targetFallback) := by
  by_cases same : source = target
  · subst target
    by_cases meet : sourceFallback = targetFallback
    · subst targetFallback
      rw [shortest.eq_singleton]
      simp [trimWalk_bounce]
    · have back := mem_trimWalk_of_return sourceOff (shortest.1.two_le_length meet)
      constructor
      · exact fun all => absurd back (List.nodup_cons.mp all).1
      · exact fun none => absurd ⟨rfl, meet⟩ none
  · have all : (source :: (walk ++ [target])).Nodup := by
      rw [← List.cons_append, List.nodup_append]
      refine ⟨List.nodup_cons.mpr ⟨sourceOff, shortest.nodup⟩, List.nodup_singleton _, ?_⟩
      rintro id here last lastHere rfl
      have here := List.mem_singleton.mp lastHere ▸ here
      rcases List.mem_cons.mp here with hit | later
      · exact same hit.symm
      · exact targetOff later
    rw [trimWalk_nodup all, List.drop_one, List.tail_cons]
    simpa [same, sourceOff] using all

/-- The source comes twice if it is the target and there is a way to go, the target if the
walk has both ends on it. -/
theorem trimWalk_both_nodup_iff
    (shortest : IsShortest neighbors sourceFallback targetFallback walk)
    (sourceNear : source ∈ neighbors sourceFallback) (sourceOther : source ≠ sourceFallback)
    (targetNear : targetFallback ∈ neighbors target) (targetOther : target ≠ targetFallback) :
    (source :: trimWalk (source :: (walk ++ [target]))).Nodup ↔
      ¬ ((source = target ∧ sourceFallback ≠ targetFallback) ∨
        (source ≠ targetFallback ∧ source ∈ walk ∧ target ∈ walk)) := by
  by_cases sourceOn : source ∈ walk
  · have apart : sourceFallback ≠ targetFallback := by
      rintro rfl
      rw [shortest.eq_singleton] at sourceOn
      exact sourceOther (List.mem_singleton.mp sourceOn)
    have kept := trimWalk_both_nodup_iff_of_source_mem shortest sourceNear sourceOther
      targetNear targetOther sourceOn
    simpa [apart, sourceOn] using kept
  · by_cases targetOn : target ∈ walk
    · have differ : source ≠ target := fun same => sourceOn (same ▸ targetOn)
      have kept := trimWalk_both_nodup_of_target_mem shortest targetNear targetOther
        sourceOn targetOn
      simpa [differ, sourceOn] using kept
    · have kept := trimWalk_both_nodup_iff_of_not_mem shortest sourceOn targetOn
      simpa [sourceOn] using kept

end Both

end Detours

/-- The requests that lead astray twice, with neither end its own fallback: those that come
back to the source over two fallbacks, and those whose walk between the fallbacks has both
ends on it, unless the source is the very last of the walk. -/
def TurnsBackTwice (graph : Graph) (request : Request) : Prop :=
  request.source ≠ request.sourceFallback ∧ request.target ≠ request.targetFallback ∧
    ((request.source = request.target ∧ request.sourceFallback ≠ request.targetFallback) ∨
      (request.source ≠ request.targetFallback ∧ ∃ walk,
        graph.shortest? request.sourceFallback request.targetFallback = some walk ∧
          request.source ∈ walk ∧ request.target ∈ walk))

/-- A route comes to no namespace twice, and not back to its source, unless the request turns
back twice: a single detour is always taken out. -/
theorem route_visits_once_iff {graph : Graph} {request : Request} {path : List Nat}
    (found : graph.route request = .ok path) :
    (path.Nodup ∧ request.source ∉ path) ↔ ¬ graph.TurnsBackTwice request := by
  obtain ⟨grounded, walk, shortest?, rfl⟩ := route_eq_ok_iff.mp found
  have shortest := isShortest_of_shortest? shortest?
  have once : ∀ path : List Nat, (path.Nodup ∧ request.source ∉ path) ↔
      (request.source :: path).Nodup := fun path => by rw [List.nodup_cons, and_comm]
  have sourceNear : request.source ≠ request.sourceFallback →
      request.source ∈ graph.neighbors request.sourceFallback := fun other =>
    near_comm (grounded.known _ (by simp)) (grounded.sourceNear.resolve_left other)
  have targetNear : request.target ≠ request.targetFallback →
      request.targetFallback ∈ graph.neighbors request.target := fun other =>
    near_comm (grounded.known _ (by simp)) (grounded.targetNear.resolve_left other)
  rw [once]
  by_cases sourceOther : request.source = request.sourceFallback
  · -- With the source its own fallback nothing can be turned back on twice.
    refine iff_of_true ?_ fun twice => twice.1 sourceOther
    by_cases targetOther : request.target = request.targetFallback
    · simp only [Request.lengthen, sourceOther, targetOther, ne_eq, not_true_eq_false, if_false]
      rw [cons_trimWalk_of_nodup shortest.1 shortest.nodup]
      exact shortest.nodup
    · have kept := trimWalk_concat_nodup shortest (targetNear targetOther) targetOther
      simpa [Request.lengthen, sourceOther, targetOther] using kept
  · by_cases targetOther : request.target = request.targetFallback
    · refine iff_of_true ?_ fun twice => twice.2.1 targetOther
      have kept := trimWalk_cons_nodup shortest (sourceNear sourceOther) sourceOther
      simpa [Request.lengthen, sourceOther, targetOther] using kept
    · have both := trimWalk_both_nodup_iff shortest (sourceNear sourceOther) sourceOther
        (targetNear targetOther) targetOther
      simpa [Request.lengthen, TurnsBackTwice, sourceOther, targetOther, shortest?] using both

/-- Four namespaces, each but the first derived from the one before it. -/
def chainOfFour : Graph :=
  ⟨[⟨"official", false, []⟩, ⟨"searge", false, [0]⟩, ⟨"mojmap", false, [1]⟩,
    ⟨"parchment", true, [2]⟩]⟩

theorem route_visits_once_iff_chain :
    chainOfFour.route ⟨1, 0, 3, 2⟩ = .ok [2, 3, 2] ∧
      (([2, 3, 2].Nodup ∧ 1 ∉ [2, 3, 2]) ↔ ¬ chainOfFour.TurnsBackTwice ⟨1, 0, 3, 2⟩) :=
  have found : chainOfFour.route ⟨1, 0, 3, 2⟩ = .ok [2, 3, 2] := by decide +kernel
  ⟨found, route_visits_once_iff found⟩

theorem build_of_resolved {declarations : List Declaration} {graph : Graph}
    (distinct : repeated? [] (declarations.map fun declaration => normalize declaration.name) =
      none)
    (resolved : resolveAll (declarations.map fun declaration => normalize declaration.name)
      declarations = .ok graph.namespaces)
    (acyclic : graph.onCycle? = none) (rooted : graph.root?.isSome = true) :
    build declarations = .ok graph := by
  obtain ⟨root, rooted⟩ := Option.isSome_iff_exists.mp rooted
  simp only [build, distinct, resolved, bind, Except.bind, acyclic, rooted]

theorem onCycle?_chainOfFour : chainOfFour.onCycle? = none := by
  have ordered : finishOrder chainOfFour.dependencies chainOfFour.ids [] chainOfFour.ids =
      .ok [3, 2, 1, 0] := by cbv
  rw [onCycle?, ordered]
  decide +kernel

/-- From the second to the third over the first and the fourth: the bounce at the head is
taken out, so the doubling at the end stays. -/
theorem route_doubles_back_on_chain :
    build [⟨"official", false, []⟩, ⟨"searge", false, ["official"]⟩,
        ⟨"mojmap", false, ["searge"]⟩, ⟨"parchment", true, ["mojmap"]⟩] = .ok chainOfFour ∧
      chainOfFour.route ⟨1, 0, 3, 2⟩ = .ok [2, 3, 2] ∧ ¬ [2, 3, 2].Nodup :=
  ⟨build_of_resolved (by decide +kernel) rfl onCycle?_chainOfFour (by decide +kernel),
    by decide +kernel, by decide⟩

/-- A namespace and one that is derived from it. -/
def pair : Graph := ⟨[⟨"a", false, []⟩, ⟨"b", false, [0]⟩]⟩

theorem build_pair : build [⟨"a", false, []⟩, ⟨"b", false, ["a"]⟩] = .ok pair := by
  refine build_of_resolved (by decide +kernel) rfl ?_ (by decide +kernel)
  have ordered : finishOrder pair.dependencies pair.ids [] pair.ids = .ok [1, 0] := by cbv
  rw [onCycle?, ordered]
  decide +kernel

end Graph

end ArchiveRemap
