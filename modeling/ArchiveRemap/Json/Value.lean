import ArchiveRemap.Number.Shortest

/-!
JSON values and their two written forms. The compact form has no blanks; the indented form
puts every element and every member on a line of its own, two blanks deeper than the line
that opens it, and writes an empty array or object in one piece.
-/

namespace ArchiveRemap.Json

inductive Value where
  | null
  | bool (truth : Bool)
  | integer (number : Int)
  | real (number : Double)
  | string (text : String)
  | array (items : List Value)
  | object (members : List (String × Value))
  deriving Repr

instance : Inhabited Value := ⟨.null⟩

def hexDigit (n : Nat) : Char :=
  if n < 10 then Char.ofNat (n + 48) else Char.ofNat (n + 87)

/-- One character as it stands inside quotes. -/
def escape (c : Char) : List Char :=
  match c with
  | '"' => ['\\', '"']
  | '\\' => ['\\', '\\']
  | '\x08' => ['\\', 'b']
  | '\x0c' => ['\\', 'f']
  | '\n' => ['\\', 'n']
  | '\r' => ['\\', 'r']
  | '\t' => ['\\', 't']
  | c =>
      if c.toNat < 32 then
        ['\\', 'u', '0', '0', hexDigit (c.toNat / 16), hexDigit (c.toNat % 16)]
      else [c]

def quote (text : String) : List Char :=
  '"' :: text.toList.flatMap escape ++ ['"']

namespace Value

mutual

def compact : Value → List Char
  | .null => "null".toList
  | .bool truth => (if truth then "true" else "false").toList
  | .integer number => (toString number).toList
  | .real number => number.text
  | .string text => quote text
  | .array items => '[' :: compactItems items
  | .object members => '\x7b' :: compactMembers members

def compactItems : List Value → List Char
  | [] => [']']
  | [item] => compact item ++ [']']
  | item :: rest => compact item ++ ',' :: compactItems rest

def compactMembers : List (String × Value) → List Char
  | [] => ['\x7d']
  | [(key, value)] => quote key ++ ':' :: compact value ++ ['\x7d']
  | (key, value) :: rest => quote key ++ ':' :: compact value ++ ',' :: compactMembers rest

end

/-- A new line that starts `depth` levels deep. -/
def newLine (depth : Nat) : List Char := '\n' :: List.replicate (2 * depth) ' '

mutual

/-- The indented form of a value that stands `depth` levels deep. -/
def indented (depth : Nat) : Value → List Char
  | .array [] => "[]".toList
  | .array (item :: rest) =>
      '[' :: newLine (depth + 1) ++ indented (depth + 1) item ++ indentedItems depth rest
  | .object [] => ['\x7b', '\x7d']
  | .object ((key, value) :: rest) =>
      '\x7b' :: newLine (depth + 1) ++ quote key ++ ':' :: ' ' :: indented (depth + 1) value ++
        indentedMembers depth rest
  | .null => "null".toList
  | .bool truth => (if truth then "true" else "false").toList
  | .integer number => (toString number).toList
  | .real number => number.text
  | .string text => quote text

def indentedItems (depth : Nat) : List Value → List Char
  | [] => newLine depth ++ [']']
  | item :: rest =>
      ',' :: newLine (depth + 1) ++ indented (depth + 1) item ++ indentedItems depth rest

def indentedMembers (depth : Nat) : List (String × Value) → List Char
  | [] => newLine depth ++ ['\x7d']
  | (key, value) :: rest =>
      ',' :: newLine (depth + 1) ++ quote key ++ ':' :: ' ' :: indented (depth + 1) value ++
        indentedMembers depth rest

end

def compactText (value : Value) : String := String.ofList value.compact

def indentedText (value : Value) : String := String.ofList (value.indented 0)

/-- The value under a key of an object. -/
def member? (key : String) : Value → Option Value
  | .object members => members.lookup key
  | _ => none

def string? : Value → Option String
  | .string text => some text
  | _ => none

def array? : Value → Option (List Value)
  | .array items => some items
  | _ => none

end Value

end ArchiveRemap.Json
