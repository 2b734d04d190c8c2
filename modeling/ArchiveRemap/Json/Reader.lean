import ArchiveRemap.Json.Numeral
import ArchiveRemap.Json.Value
import ArchiveRemap.Text.Hex

/-!
Reading JSON text. Reading goes in two steps: the text becomes a tree of its tokens, and a
taker of the tree reads the tokens it needs. A tree keeps members in the order of the text,
repeated keys included, and holds a string whose escapes name no character, or a number too
large to represent, as long as nobody takes it.
-/

namespace ArchiveRemap.Json

/-- The tree of a text. A string that is no text, because an escape names half of a
surrogate pair, is `none`. -/
inductive Tree where
  | null
  | bool (truth : Bool)
  | number (numeral : Numeral)
  | string (text : Option String)
  | array (items : List Tree)
  | object (members : List (Option String × Tree))
  deriving Repr

instance : Inhabited Tree := ⟨.null⟩

/-! Blanks and numbers. -/

def isGap (c : Char) : Bool := c = ' ' || c = '\n' || c = '\t' || c = '\r'

def skipGap (text : List Char) : List Char := text.dropWhile isGap

/-- The digits at the head of a text and what follows them. -/
def takeDigits (text : List Char) : List Char × List Char :=
  (text.takeWhile Char.isDigit, text.dropWhile Char.isDigit)

/-- One or more digits. -/
def someDigits? (text : List Char) : Option (List Char × List Char) :=
  match takeDigits text with
  | ([], _) => none
  | found => some found

/-- The digits before the point: zero stands alone. -/
def wholeDigits? (text : List Char) : Option (List Char × List Char) :=
  match someDigits? text with
  | some ('0' :: _ :: _, _) => none
  | found => found

def readFraction? : List Char → Option (Option (List Char) × List Char)
  | '.' :: rest => (someDigits? rest).map fun (digits, rest) => (some digits, rest)
  | text => some (none, text)

def readExponent? : List Char → Option (Option (Bool × List Char) × List Char)
  | c :: rest =>
      if c = 'e' || c = 'E' then
        let (down, rest) := match rest with
          | '+' :: rest => (false, rest)
          | '-' :: rest => (true, rest)
          | rest => (false, rest)
        (someDigits? rest).map fun (digits, rest) => (some (down, digits), rest)
      else some (none, c :: rest)
  | [] => some (none, [])

def readNumeral? (text : List Char) : Option (Numeral × List Char) := do
  let (negative, text) := match text with
    | '-' :: rest => (true, rest)
    | rest => (false, rest)
  let (whole, text) ← wholeDigits? text
  let (fraction, text) ← readFraction? text
  let (exponent, text) ← readExponent? text
  some (⟨negative, whole, fraction, exponent⟩, text)

/-! Strings. -/

def unit? (a b c d : Char) : Option Nat := Text.hexNumber? [a, b, c, d]

/-- What a backslash and one more character stand for. -/
def plainEscape? : Char → Option Char
  | '"' => some '"'
  | '\\' => some '\\'
  | '/' => some '/'
  | 'b' => some '\x08'
  | 'f' => some '\x0c'
  | 'n' => some '\n'
  | 'r' => some '\r'
  | 't' => some '\t'
  | _ => none

def isHighHalf (unit : Nat) : Bool := 0xD800 ≤ unit && unit < 0xDC00

def isLowHalf (unit : Nat) : Bool := 0xDC00 ≤ unit && unit < 0xE000

def joinHalves (high low : Nat) : Char :=
  Char.ofNat (0x10000 + (high - 0xD800) * 0x400 + (low - 0xDC00))

/-- Put a character, or the absence of one, in front of a string that was read. -/
def consRead (c : Option Char) :
    Option (Option (List Char) × List Char) → Option (Option (List Char) × List Char)
  | some (text, rest) => some ((do some ((← c) :: (← text))), rest)
  | none => none

/-- The text up to the closing quote and what follows it. -/
def readQuoted? : List Char → Option (Option (List Char) × List Char)
  | [] => none
  | '"' :: rest => some (some [], rest)
  | '\\' :: 'u' :: a :: b :: c :: d :: '\\' :: 'u' :: e :: f :: g :: h :: rest =>
      match unit? a b c d with
      | none => none
      | some high =>
          match unit? e f g h with
          | some low =>
              if isHighHalf high && isLowHalf low then
                consRead (some (joinHalves high low)) (readQuoted? rest)
              else
                consRead (if isHighHalf high || isLowHalf high then none
                    else some (Char.ofNat high))
                  (readQuoted? ('\\' :: 'u' :: e :: f :: g :: h :: rest))
          | none => none
  | '\\' :: 'u' :: a :: b :: c :: d :: rest =>
      match unit? a b c d with
      | none => none
      | some unit =>
          consRead (if isHighHalf unit || isLowHalf unit then none else some (Char.ofNat unit))
            (readQuoted? rest)
  | '\\' :: c :: rest =>
      match plainEscape? c with
      | some plain => consRead (some plain) (readQuoted? rest)
      | none => none
  | c :: rest =>
      if c.toNat < 32 || c = '\\' then none
      else consRead (some c) (readQuoted? rest)

def readString? (text : List Char) : Option (Option String × List Char) :=
  (readQuoted? text).map fun (found, rest) => (found.map String.ofList, rest)

/-! Values. Each level of the text takes one step of the count that `parse?` starts with. -/

mutual

def readTree? : Nat → List Char → Option (Tree × List Char)
  | 0, _ => none
  | count + 1, text =>
      match skipGap text with
      | '"' :: rest => (readString? rest).map fun (found, rest) => (.string found, rest)
      | '[' :: rest =>
          match skipGap rest with
          | ']' :: rest => some (.array [], rest)
          | rest => (readItems? count rest).map fun (items, rest) => (.array items, rest)
      | '\x7b' :: rest =>
          match skipGap rest with
          | '\x7d' :: rest => some (.object [], rest)
          | rest =>
              (readMembers? count rest).map fun (members, rest) => (.object members, rest)
      | 'n' :: 'u' :: 'l' :: 'l' :: rest => some (.null, rest)
      | 't' :: 'r' :: 'u' :: 'e' :: rest => some (.bool true, rest)
      | 'f' :: 'a' :: 'l' :: 's' :: 'e' :: rest => some (.bool false, rest)
      | rest => (readNumeral? rest).map fun (numeral, rest) => (.number numeral, rest)

def readItems? : Nat → List Char → Option (List Tree × List Char)
  | 0, _ => none
  | count + 1, text =>
      match readTree? count text with
      | none => none
      | some (item, rest) =>
          match skipGap rest with
          | ']' :: rest => some ([item], rest)
          | ',' :: rest =>
              (readItems? count rest).map fun (items, rest) => (item :: items, rest)
          | _ => none

def readMembers? : Nat → List Char → Option (List (Option String × Tree) × List Char)
  | 0, _ => none
  | count + 1, text =>
      match skipGap text with
      | '"' :: rest =>
          match readString? rest with
          | none => none
          | some (key, rest) =>
              match skipGap rest with
              | ':' :: rest =>
                  match readTree? count rest with
                  | none => none
                  | some (value, rest) =>
                      match skipGap rest with
                      | '\x7d' :: rest => some ([(key, value)], rest)
                      | ',' :: rest =>
                          (readMembers? count rest).map fun (members, rest) =>
                            ((key, value) :: members, rest)
                      | _ => none
              | _ => none
      | _ => none

end

/-- The tree of a text that holds one value and nothing else. -/
def parse? (text : String) : Option Tree :=
  let source := text.toList
  match readTree? (source.length + 1) source with
  | some (tree, rest) => if (skipGap rest).isEmpty then some tree else none
  | none => none

end ArchiveRemap.Json
