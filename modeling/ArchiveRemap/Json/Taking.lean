import ArchiveRemap.Dictionary
import ArchiveRemap.Json.Reader

/-!
Taking values out of a JSON tree. What is taken has to be well formed in full: its strings
are text, its numbers can be represented and it nests no deeper than `maxDepth`. A record
is written as an object, where unknown members are passed over and a known one comes at
most once, or as an array of its fields in their order.
-/

namespace ArchiveRemap.Json

/-- Levels of arrays and objects that a taken value may have. -/
def maxDepth : Nat := 127

namespace Tree

def bool? : Tree → Option Bool
  | .bool truth => some truth
  | _ => none

def string? : Tree → Option String
  | .string text => text
  | _ => none

def integer? : Tree → Option Int
  | .number numeral =>
      match numeral.number? with
      | some (.integer whole) => some whole
      | _ => none
  | _ => none

/-- A whole number between two bounds, both included. -/
def integerIn? (low high : Int) (tree : Tree) : Option Int :=
  tree.integer?.bind fun whole =>
    if low ≤ whole && whole ≤ high then some whole else none

def items? : Tree → Option (List Tree)
  | .array items => some items
  | _ => none

/-- The members of an object whose keys are all text. -/
def members? : Tree → Option (List (String × Tree))
  | .object members => members.mapM fun (key, value) => key.map fun key => (key, value)
  | _ => none

/-- The only member of an object with one member. -/
def variant? (tree : Tree) : Option (String × Tree) :=
  match tree.members? with
  | some [member] => some member
  | _ => none

/-- The values under a key, in the order of the text. -/
def under (key : String) (members : List (String × Tree)) : List Tree :=
  (members.filter fun member => member.1 = key).map Prod.snd

/-- Each field of a record that is there, in the order of the names. -/
def record? (names : List String) : Tree → Option (List (Option Tree))
  | .object members => do
      let members ← (Tree.object members).members?
      names.mapM fun name =>
        match under name members with
        | [] => some none
        | [value] => some (some value)
        | _ => none
  | .array items =>
      if items.length ≤ names.length then
        some ((items.map some) ++ List.replicate (names.length - items.length) none)
      else none
  | _ => none

/-- The value of an optional field: a field that is not there has the value `absent`. -/
def orAbsent {α : Type} (absent : α) (take : Tree → Option α) : Option Tree → Option α
  | none => some absent
  | some tree => take tree

/-- A value that may be written as null. -/
def nullable? {α : Type} (take : Tree → Option α) : Tree → Option (Option α)
  | .null => some none
  | tree => (take tree).map some

def listOf? {α : Type} (take : Tree → Option α) (tree : Tree) : Option (List α) :=
  tree.items?.bind fun items => items.mapM take

/-! Whole values. Members come out in the order of their keys, the last one of a key. -/

mutual

def valueWithin? (room : Nat) : Tree → Option Value
  | .null => some .null
  | .bool truth => some (.bool truth)
  | .number numeral =>
      match numeral.number? with
      | some (.integer whole) => some (.integer whole)
      | some (.real found) => some (.real found)
      | none => none
  | .string text => text.map .string
  | .array items =>
      match room with
      | 0 => none
      | room + 1 => (itemValues? room items).map .array
  | .object members =>
      match room with
      | 0 => none
      | room + 1 => (memberValues? room members).map fun pairs =>
          .object (Dictionary.ofList pairs).entries

def itemValues? (room : Nat) : List Tree → Option (List Value)
  | [] => some []
  | item :: rest => do
      let value ← valueWithin? room item
      let values ← itemValues? room rest
      some (value :: values)

def memberValues? (room : Nat) :
    List (Option String × Tree) → Option (List (String × Value))
  | [] => some []
  | (key, item) :: rest => do
      let key ← key
      let value ← valueWithin? room item
      let values ← memberValues? room rest
      some ((key, value) :: values)

end

def value? (tree : Tree) : Option Value := valueWithin? maxDepth tree

end Tree

/-- The value of a text. -/
def Value.parse? (text : String) : Option Value := (Json.parse? text).bind Tree.value?

end ArchiveRemap.Json
