import ArchiveRemap.Keyed
import ArchiveRemap.Namespace.Graph
import ArchiveRemap.Notice

/-!
Routes between namespaces. A route is a sequence of hops between neighbours. It is found
breadth first between the fallbacks of the two ends, lengthened by the ends themselves,
and shortened where it turns straight back.
-/

namespace ArchiveRemap

/-- A request to go from one namespace to another. A fallback is a namespace with complete
data; it is the namespace itself or one of its neighbours. -/
structure Request where
  source : Nat
  sourceFallback : Nat
  targetFallback : Nat
  target : Nat
  deriving DecidableEq, Repr

namespace Request

/-- A request whose ends are their own fallbacks. -/
def direct (source target : Nat) : Request := ⟨source, source, target, target⟩

/-- Look up the names of a request in the order source, its fallback, target's fallback,
target. -/
def ofNames (graph : Graph) (source sourceFallback targetFallback target : String) :
    Except RequestError Request := do
  .ok ⟨← graph.require source, ← graph.require sourceFallback,
    ← graph.require targetFallback, ← graph.require target⟩

end Request

namespace Graph

/-- Split candidates off a list of free namespaces: those taken, in their order, and the
ones still free. -/
def takeFree (free : List Nat) : List Nat → List Nat × List Nat
  | [] => ([], free)
  | id :: rest =>
      if id ∈ free then
        let (taken, left) := takeFree (free.erase id) rest
        (id :: taken, left)
      else takeFree free rest

theorem takeFree_length (free candidates : List Nat) :
    (takeFree free candidates).1.length + (takeFree free candidates).2.length =
      free.length := by
  induction candidates generalizing free with
  | nil => simp [takeFree]
  | cons id rest ih =>
      by_cases member : id ∈ free
      · have step := ih (free.erase id)
        rw [List.length_erase_of_mem member] at step
        have := List.length_pos_of_mem member
        simp only [takeFree, member, if_true, List.length_cons]
        omega
      · simpa [takeFree, member] using ih free

/-- Breadth-first search. The queue holds walks, last namespace first; a namespace is taken
from `free` when a walk to it enters the queue. -/
def search (neighbors : Nat → List Nat) (target : Nat) (free : List Nat)
    (queue : List (List Nat)) : Option (List Nat) :=
  match queue with
  | [] => none
  | [] :: rest => search neighbors target free rest
  | (last :: earlier) :: rest =>
      if last = target then some (last :: earlier).reverse
      else
        search neighbors target (takeFree free (neighbors last)).2
          (rest ++ (takeFree free (neighbors last)).1.map
            fun next => next :: last :: earlier)
termination_by free.length + queue.length
decreasing_by
  · simp
  · have := takeFree_length free (neighbors last)
    simp only [List.length_append, List.length_map, List.length_cons]
    omega

/-- A shortest walk between two namespaces, both ends included. Of several the one through
the earlier registered namespaces. -/
def shortest? (graph : Graph) (source target : Nat) : Option (List Nat) :=
  search graph.neighbors target (graph.ids.erase source) [[source]]

/-- What stays free when all that neighbours lead to from a stack is taken. The namespace on top
is taken unless it was before, and its neighbours go on the stack. -/
def unreached (neighbors : Nat → List Nat) (free stack : List Nat) : List Nat :=
  match stack with
  | [] => free
  | id :: rest =>
      if _member : id ∈ free then
        unreached neighbors (free.erase id) ((neighbors id).reverse ++ rest)
      else unreached neighbors free rest
termination_by (free.length, stack.length)
decreasing_by
  · apply Prod.Lex.left
    have := List.length_erase_of_mem ‹id ∈ free›
    have := List.length_pos_of_mem ‹id ∈ free›
    omega
  · apply Prod.Lex.right
    simp

/-- The namespaces that no chain of neighbours connects to the root. -/
def cutOff (graph : Graph) : List Nat := unreached graph.neighbors graph.ids [graph.root]

/-- A namespace that is cut off is worth a notice. -/
def notices (graph : Graph) : List Notice :=
  graph.cutOff.map fun id => .cutOff (graph.name id) (graph.name graph.root)

/-- A walk without its first namespace, and without a detour at its head that comes straight
back, or else without one at its end. -/
def trimWalk (walk : List Nat) : List Nat :=
  let count := walk.length
  if 2 < count && walk[0]? = walk[2]? then walk.drop 3
  else if 2 < count && walk[count - 1]? = walk[count - 3]? then
    (walk.take (count - 2)).drop 1
  else walk.drop 1

/-- The namespaces to hop through, without the source. -/
def route (graph : Graph) (request : Request) : Except RequestError (List Nat) :=
  let ⟨source, sourceFallback, targetFallback, target⟩ := request
  let refuse (fault : RouteFault) : Except RequestError (List Nat) :=
    .error (.noPath (graph.name source) (graph.name target) fault graph.neighborTable)
  match [source, sourceFallback, targetFallback, target].find? fun id =>
      (graph.get? id).isNone with
  | some foreign => .error (.unknownNamespace ("#" ++ toString foreign))
  | none =>
      if target ≠ targetFallback && !graph.adjacent targetFallback target then
        refuse (.targetFallback (graph.name targetFallback) (graph.name target))
      else if source ≠ sourceFallback && !graph.adjacent source sourceFallback then
        refuse (.sourceFallback (graph.name sourceFallback) (graph.name source))
      else
        match graph.shortest? sourceFallback targetFallback with
        | none => refuse .unconnected
        | some walk =>
            let walk := if target ≠ targetFallback then walk ++ [target] else walk
            let walk := if source ≠ sourceFallback then source :: walk else walk
            .ok (trimWalk walk)

end Graph

/-- Routes already found, one for each request. Only a route that was found is kept. -/
abbrev RouteCache := Keyed Request (List Nat)

def RouteCache.route (cache : RouteCache) (graph : Graph) (request : Request) :
    Except RequestError (List Nat) × RouteCache :=
  match cache.get? request with
  | some found => (.ok found, cache)
  | none =>
      match graph.route request with
      | .ok found => (.ok found, cache.put request found)
      | .error fault => (.error fault, cache)

end ArchiveRemap
