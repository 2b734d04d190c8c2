import ArchiveRemap.Failure
import ArchiveRemap.Text.Case
import ArchiveRemap.Text.Line

/-!
Namespaces and what they are derived from. A namespace is a way of naming classes and
members; it depends on the namespaces its names come from. An identifier is a position in
the order of registration, and that order decides wherever the graph has a choice.
-/

namespace ArchiveRemap

structure Declaration where
  name : String
  named : Bool
  dependencies : List String
  deriving DecidableEq, Repr

structure Namespace where
  name : String
  named : Bool
  dependencies : List Nat
  deriving DecidableEq, Repr

structure Graph where
  namespaces : List Namespace
  deriving DecidableEq, Repr

namespace Graph

def lowerCase (name : String) : String := String.ofList (Text.lower name.toList)

/-- Names are compared without surrounding blanks and in lower case. -/
def normalize (name : String) : String :=
  String.ofList (Text.lower (Text.trim Text.isBlank name.toList))

def size (graph : Graph) : Nat := graph.namespaces.length

def ids (graph : Graph) : List Nat := List.range graph.size

def get? (graph : Graph) (id : Nat) : Option Namespace := graph.namespaces[id]?

def name (graph : Graph) (id : Nat) : String :=
  match graph.get? id with
  | some found => found.name
  | none => ""

/-- The identifier of a name, in whatever case it is written. -/
def find? (graph : Graph) (name : String) : Option Nat :=
  graph.namespaces.findIdx? fun known => known.name = lowerCase name

def require (graph : Graph) (name : String) : Except RequestError Nat :=
  match graph.find? name with
  | some id => .ok id
  | none => .error (.unknownNamespace name)

def dependencies (graph : Graph) (id : Nat) : List Nat :=
  match graph.get? id with
  | some found => found.dependencies
  | none => []

/-- The namespaces that depend on `id`, in order of registration. -/
def dependents (graph : Graph) (id : Nat) : List Nat :=
  graph.ids.filter fun other => (graph.dependencies other).contains id

/-- The namespaces one hop away, in order of registration. -/
def neighbors (graph : Graph) (id : Nat) : List Nat :=
  graph.ids.filter fun other =>
    (graph.dependencies id).contains other || (graph.dependencies other).contains id

def adjacent (graph : Graph) (left right : Nat) : Bool :=
  (graph.neighbors left).contains right

def isRoot (graph : Graph) (id : Nat) : Bool := (graph.dependencies id).isEmpty

/-- The first namespace without dependencies. -/
def root? (graph : Graph) : Option Nat := graph.ids.find? graph.isRoot

def root (graph : Graph) : Nat := graph.root?.getD 0

/-- Follow first dependencies for at most `count` steps. -/
def firstDependencies (graph : Graph) : Nat → Nat → List Nat
  | 0, _ => []
  | count + 1, id =>
      match graph.dependencies id with
      | [] => []
      | parent :: _ => parent :: firstDependencies graph count parent

/-- The namespace, its first dependency, the first dependency of that, and so on. Without
cycles no namespace comes twice, so there are fewer steps than namespaces. -/
def fallbackLine (graph : Graph) (id : Nat) : List Nat :=
  id :: graph.firstDependencies graph.size id

/-- One line per namespace with the names of its neighbours. -/
def neighborTable (graph : Graph) : String :=
  String.join (graph.ids.map fun id =>
    let near := (graph.neighbors id).map graph.name
    let marker := if ((graph.get? id).map (·.named)).getD false then " [named]" else ""
    graph.name id ++ marker ++ " -> " ++
      (if near.isEmpty then "(none)" else String.intercalate ", " near) ++ "\n")

end Graph

end ArchiveRemap
