import ArchiveRemap.Keyed

/-!
TOML documents. A document is built statement by statement. A table may be spread over
headers and dotted keys, but no part of it may be stated twice: a header states its table,
a dotted key states the tables on its way, and a header only implies the tables on its way.
-/

namespace ArchiveRemap.Toml

/-- Values that settings are made of. -/
inductive Value where
  | string (text : String)
  | integer (number : Int)
  | bool (truth : Bool)
  | array (items : List Value)
  | table (members : List (String × Value))
  deriving Repr

/-- How a table came to be. -/
inductive Mark where
  | stated
  | implied
  | dotted
  deriving DecidableEq, Repr

/-- What stands under a key while a document is built. Only tables can still grow. -/
inductive Node where
  | closed (value : Value)
  | table (mark : Mark) (members : List (String × Node))
  | tables (items : List (List (String × Node)))
  deriving Repr

abbrev Members := Keyed String Node

/-- Change the table at the end of a path. Tables on the way that are missing are made with
the mark `made`. A dotted path must not enter a table that a header states. Of an array of
tables, the last one is meant. -/
def descend (made : Mark) (change : Mark → Members → Option Members) :
    Mark → List String → Members → Option Members
  | mark, [], members => change mark members
  | _, key :: path, members =>
      match members.get? key with
      | none =>
          (descend made change made path []).map fun inner =>
            members.put key (.table made inner)
      | some (.closed _) => none
      | some (.table mark inner) =>
          if made = .dotted && mark = .stated then none
          else
            (descend made change mark path inner).map fun inner =>
              members.put key (.table mark inner)
      | some (.tables items) =>
          match items.getLast? with
          | none => none
          | some last =>
              (descend made change .stated path last).map fun last =>
                members.put key (.tables (items.dropLast ++ [last]))

/-- The keys before the last one, and the last one. -/
def splitPath (path : List String) : Option (List String × String) :=
  path.getLast?.map fun last => (path.dropLast, last)

/-- Put a value under a dotted key. -/
def assign (path : List String) (value : Value) (members : Members) : Option Members := do
  let (way, key) ← splitPath path
  let add (mark : Mark) (members : Members) : Option Members :=
    if (!way.isEmpty && mark ≠ .dotted) || members.has key then none
    else some (members.put key (.closed value))
  descend .dotted add .stated way members

/-- State the table of a header. -/
def openTable (path : List String) (members : Members) : Option Members := do
  let (way, key) ← splitPath path
  let add (_ : Mark) (members : Members) : Option Members :=
    match members.get? key with
    | none => some (members.put key (.table .stated []))
    | some (.table .implied inner) => some (members.put key (.table .stated inner))
    | some _ => none
  descend .implied add .stated way members

/-- Add a table to the array of a header. -/
def appendTable (path : List String) (members : Members) : Option Members := do
  let (way, key) ← splitPath path
  let add (_ : Mark) (members : Members) : Option Members :=
    match members.get? key with
    | none => some (members.put key (.tables [[]]))
    | some (.tables items) => some (members.put key (.tables (items ++ [[]])))
    | some _ => none
  descend .implied add .stated way members

/-- Put a value under a dotted key of the table that a header opened. -/
def assignIn (header path : List String) (value : Value) (members : Members) :
    Option Members :=
  descend .implied (fun _ inner => assign path value inner) .stated header members

/-! The values of a finished document. -/

mutual

def Node.value : Node → Value
  | .closed value => value
  | .table _ members => .table (memberValues members)
  | .tables items => .array (tableValues items)

def memberValues : List (String × Node) → List (String × Value)
  | [] => []
  | (key, node) :: rest => (key, node.value) :: memberValues rest

def tableValues : List (List (String × Node)) → List Value
  | [] => []
  | members :: rest => .table (memberValues members) :: tableValues rest

end

end ArchiveRemap.Toml
