import ArchiveRemap.Namespace.Graph

/-!
Building a graph from declarations. Names have to be distinct, dependencies have to be
declared, and no namespace may depend on itself through others. A dependency may name a
namespace that is declared later, and counts once however often it is written.
-/

namespace ArchiveRemap.Graph

/-! Cycles. A depth-first search over dependencies finishes each namespace after
everything it reaches. Read backwards, the order of finishing puts every namespace after
its dependents unless there is a cycle; a dependent found out of place lies on one. -/

/-- Search from a stack. A namespace on top for the first time is discovered and its
undiscovered dependencies go on top of it; otherwise it is finished. A namespace that
depends on itself is an error at once. -/
def finishAll (dependencies : Nat → List Nat) (undiscovered stack finished : List Nat) :
    Except Nat (List Nat × List Nat) :=
  match stack with
  | [] => .ok (undiscovered, finished)
  | x :: rest =>
      if _member : x ∈ undiscovered then
        if x ∈ dependencies x then .error x
        else
          finishAll dependencies (undiscovered.erase x)
            ((dependencies x).filter (· ∈ undiscovered.erase x) ++ x :: rest) finished
      else
        finishAll dependencies undiscovered rest
          (if x ∈ finished then finished else x :: finished)
termination_by (undiscovered.length, stack.length)
decreasing_by
  · apply Prod.Lex.left
    have := List.length_erase_of_mem ‹x ∈ undiscovered›
    have := List.length_pos_of_mem ‹x ∈ undiscovered›
    omega
  · apply Prod.Lex.right
    simp

/-- Search from each namespace in turn; the last one to finish comes first. -/
def finishOrder (dependencies : Nat → List Nat) (undiscovered finished : List Nat) :
    List Nat → Except Nat (List Nat)
  | [] => .ok finished
  | id :: rest =>
      if id ∈ undiscovered then
        match finishAll dependencies undiscovered [id] finished with
        | .ok (undiscovered, finished) =>
            finishOrder dependencies undiscovered finished rest
        | .error id => .error id
      else finishOrder dependencies undiscovered finished rest

/-- The first dependent that an order does not put before its dependency. -/
def misplaced? (dependents : Nat → List Nat) (placed : List Nat) : List Nat → Option Nat
  | [] => none
  | id :: rest =>
      match (dependents id).find? fun other => other ≠ id && other ∉ placed with
      | some other => some other
      | none => misplaced? dependents (id :: placed) rest

/-- A namespace on a cycle of dependencies, if there is a cycle. -/
def onCycle? (graph : Graph) : Option Nat :=
  match finishOrder graph.dependencies graph.ids [] graph.ids with
  | .error id => some id
  | .ok order => misplaced? graph.dependents [] order

/-! Resolving declarations. -/

/-- The first name that an earlier one equals. -/
def repeated? (seen : List String) : List String → Option String
  | [] => none
  | name :: rest => if name ∈ seen then some name else repeated? (name :: seen) rest

/-- The identifiers of dependencies, each once, in the order of their first mention. -/
def resolveDependencies (names : List String) (owner : String) (found : List Nat) :
    List String → Except RequestError (List Nat)
  | [] => .ok found
  | dependency :: rest =>
      match names.findIdx? (· = dependency) with
      | none => .error (.unknownDependency owner dependency)
      | some id =>
          resolveDependencies names owner (if id ∈ found then found else found ++ [id]) rest

def resolveAll (names : List String) : List Declaration → Except RequestError (List Namespace)
  | [] => .ok []
  | declaration :: rest => do
      let owner := normalize declaration.name
      let dependencies ←
        resolveDependencies names owner [] (declaration.dependencies.map normalize)
      let namespaces ← resolveAll names rest
      .ok (⟨owner, declaration.named, dependencies⟩ :: namespaces)

/-- The graph of some declarations, in the order in which they come. -/
def build (declarations : List Declaration) : Except RequestError Graph :=
  let names := declarations.map fun declaration => normalize declaration.name
  match repeated? [] names with
  | some name => .error (.duplicateNamespace name)
  | none => do
      let graph : Graph := ⟨← resolveAll names declarations⟩
      match graph.onCycle? with
      | some id => .error (.cyclicDependency (graph.name id))
      | none =>
          match graph.root? with
          | some _ => .ok graph
          | none => .error .missingRoot

end ArchiveRemap.Graph
