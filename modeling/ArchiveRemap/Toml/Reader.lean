import ArchiveRemap.Text.Cut
import ArchiveRemap.Text.Hex
import ArchiveRemap.Toml.Document

/-!
Reading TOML text. Texts with numbers that are not whole, or with dates, are refused as a
whole: no setting takes such a value.
-/

namespace ArchiveRemap.Toml

/-! Blanks and comments. -/

def isSpace (c : Char) : Bool := c = ' ' || c = '\t'

/-- A character that may stand in a comment or a string as itself. -/
def isPlain (c : Char) : Bool := c = '\t' || (32 ≤ c.toNat && c.toNat ≠ 127)

def skipSpace (text : List Char) : List Char := text.dropWhile isSpace

/-- What follows the line break at the head of a text. -/
def afterBreak? : List Char → Option (List Char)
  | '\n' :: rest => some rest
  | '\r' :: '\n' :: rest => some rest
  | _ => none

/-- Skip spaces, line breaks and comments. -/
def skipGap (inComment : Bool) : List Char → Option (List Char)
  | [] => some []
  | '\n' :: rest => skipGap false rest
  | '\r' :: '\n' :: rest => skipGap false rest
  | c :: rest =>
      if inComment then if isPlain c then skipGap true rest else none
      else if isSpace c then skipGap false rest
      else if c = '#' then skipGap true rest
      else some (c :: rest)

/-- Skip what may follow a statement on its line, and the line break. -/
def endLine? (text : List Char) : Option (List Char) :=
  let rest := match skipSpace text with
    | '#' :: rest => rest.dropWhile isPlain
    | rest => rest
  if rest.isEmpty then some [] else afterBreak? rest

/-! Strings. -/

def shortEscape? : Char → Option Char
  | 'b' => some '\x08'
  | 't' => some '\t'
  | 'n' => some '\n'
  | 'f' => some '\x0c'
  | 'r' => some '\r'
  | 'e' => some '\x1b'
  | '"' => some '"'
  | '\\' => some '\\'
  | _ => none

def escaped? (digits : List Char) : Option Char :=
  (Text.hexNumber? digits).bind Text.scalar?

/-- Put a character in front of what was read. -/
def consRead (c : Option Char) (read : Option (List Char × List Char)) :
    Option (List Char × List Char) := do
  let c ← c
  let (text, rest) ← read
  some (c :: text, rest)

/-- A string with escapes, up to its closing quote. -/
def readBasic? : List Char → Option (List Char × List Char)
  | [] => none
  | '"' :: rest => some ([], rest)
  | '\\' :: 'x' :: a :: b :: rest => consRead (escaped? [a, b]) (readBasic? rest)
  | '\\' :: 'u' :: a :: b :: c :: d :: rest =>
      consRead (escaped? [a, b, c, d]) (readBasic? rest)
  | '\\' :: 'U' :: a :: b :: c :: d :: e :: f :: g :: h :: rest =>
      consRead (escaped? [a, b, c, d, e, f, g, h]) (readBasic? rest)
  | '\\' :: c :: rest => consRead (shortEscape? c) (readBasic? rest)
  | c :: rest =>
      if isPlain c && c ≠ '\\' then consRead (some c) (readBasic? rest) else none

/-- A string without escapes, up to its closing quote. -/
def readLiteral? : List Char → Option (List Char × List Char)
  | [] => none
  | '\'' :: rest => some ([], rest)
  | c :: rest => if isPlain c then consRead (some c) (readLiteral? rest) else none

/-- A string of several lines with escapes. A backslash at the end of a line drops the line
break and all blanks after it, which is what `skipping` says. -/
def readBasicLines? (skipping : Bool) : List Char → Option (List Char × List Char)
  | [] => none
  | '"' :: '"' :: '"' :: '"' :: '"' :: rest => some (['"', '"'], rest)
  | '"' :: '"' :: '"' :: '"' :: rest => some (['"'], rest)
  | '"' :: '"' :: '"' :: rest => some ([], rest)
  | '\\' :: 'x' :: a :: b :: rest => consRead (escaped? [a, b]) (readBasicLines? false rest)
  | '\\' :: 'u' :: a :: b :: c :: d :: rest =>
      consRead (escaped? [a, b, c, d]) (readBasicLines? false rest)
  | '\\' :: 'U' :: a :: b :: c :: d :: e :: f :: g :: h :: rest =>
      consRead (escaped? [a, b, c, d, e, f, g, h]) (readBasicLines? false rest)
  | '\\' :: c :: rest =>
      if (afterBreak? (skipSpace (c :: rest))).isSome then readBasicLines? true (c :: rest)
      else consRead (shortEscape? c) (readBasicLines? false rest)
  | '\r' :: '\n' :: rest =>
      if skipping then readBasicLines? true rest
      else consRead (some '\n') (readBasicLines? false rest)
  | c :: rest =>
      if skipping && (isSpace c || c = '\n') then readBasicLines? true rest
      else if (isPlain c && c ≠ '\\') || c = '\n' then
        consRead (some c) (readBasicLines? false rest)
      else none

/-- A string of several lines without escapes. -/
def readLiteralLines? : List Char → Option (List Char × List Char)
  | [] => none
  | '\'' :: '\'' :: '\'' :: '\'' :: '\'' :: rest => some (['\'', '\''], rest)
  | '\'' :: '\'' :: '\'' :: '\'' :: rest => some (['\''], rest)
  | '\'' :: '\'' :: '\'' :: rest => some ([], rest)
  | '\r' :: '\n' :: rest => consRead (some '\n') (readLiteralLines? rest)
  | c :: rest =>
      if isPlain c || c = '\n' then consRead (some c) (readLiteralLines? rest) else none

/-- The line break right after an opening of three quotes does not count. -/
def dropBreak (text : List Char) : List Char := (afterBreak? text).getD text

/-! Keys. -/

def isKeyChar (c : Char) : Bool := c.isAlphanum || c = '_' || c = '-'

def readName? : List Char → Option (String × List Char)
  | '"' :: rest => (readBasic? rest).map fun (key, rest) => (String.ofList key, rest)
  | '\'' :: rest => (readLiteral? rest).map fun (key, rest) => (String.ofList key, rest)
  | text =>
      let key := text.takeWhile isKeyChar
      if key.isEmpty then none else some (String.ofList key, text.dropWhile isKeyChar)

/-- A key of one or more names with points between them, and what follows it. -/
def readKey? : Nat → List Char → Option (List String × List Char)
  | 0, _ => none
  | count + 1, text => do
      let (name, rest) ← readName? (skipSpace text)
      match skipSpace rest with
      | '.' :: rest =>
          let (names, rest) ← readKey? count rest
          some (name :: names, rest)
      | rest => some ([name], rest)

/-! Whole numbers. -/

/-- The digits of a number in some base; underscores stand between digits only. -/
def digitsIn? (base : Nat) (text : List Char) : Option Nat :=
  if (text.splitOn '_').any List.isEmpty then none
  else
    (text.filter (· ≠ '_')).foldlM (fun number digit => do
      let value ← Text.hexValue? digit
      if value < base then some (number * base + value) else none) 0

/-- Zero stands alone. -/
def decimal? : List Char → Option Nat
  | '0' :: _ :: _ => none
  | text => digitsIn? 10 text

def integer? : List Char → Option Int
  | '0' :: 'x' :: digits => (digitsIn? 16 digits).map Int.ofNat
  | '0' :: 'o' :: digits => (digitsIn? 8 digits).map Int.ofNat
  | '0' :: 'b' :: digits => (digitsIn? 2 digits).map Int.ofNat
  | '-' :: digits => (decimal? digits).map fun number => -Int.ofNat number
  | '+' :: digits => (decimal? digits).map Int.ofNat
  | digits => (decimal? digits).map Int.ofNat

def isWordChar (c : Char) : Bool := isKeyChar c || c = '+' || c = '.' || c = ':'

/-- A value that is written without quotes or brackets. -/
def word? (word : List Char) : Option Value :=
  if word = "true".toList then some (.bool true)
  else if word = "false".toList then some (.bool false)
  else (integer? word).map .integer

/-! Values. Each level of the text takes one step of the count. -/

mutual

def readValue? : Nat → List Char → Option (Value × List Char)
  | 0, _ => none
  | count + 1, text =>
      let string (read : Option (List Char × List Char)) : Option (Value × List Char) :=
        read.map fun (found, rest) => (.string (String.ofList found), rest)
      match text with
      | '"' :: '"' :: '"' :: rest => string (readBasicLines? false (dropBreak rest))
      | '\'' :: '\'' :: '\'' :: rest => string (readLiteralLines? (dropBreak rest))
      | '"' :: rest => string (readBasic? rest)
      | '\'' :: rest => string (readLiteral? rest)
      | '[' :: rest =>
          (readItems? count rest).map fun (items, rest) => (.array items, rest)
      | '\x7b' :: rest =>
          (readMembers? count [] rest).map fun (members, rest) =>
            (.table (memberValues members), rest)
      | text =>
          (word? (text.takeWhile isWordChar)).map fun value =>
            (value, text.dropWhile isWordChar)

/-- The items of an array, up to its closing bracket. -/
def readItems? : Nat → List Char → Option (List Value × List Char)
  | 0, _ => none
  | count + 1, text => do
      match ← skipGap false text with
      | ']' :: rest => some ([], rest)
      | text =>
          let (item, rest) ← readValue? count text
          match ← skipGap false rest with
          | ']' :: rest => some ([item], rest)
          | ',' :: rest =>
              let (items, rest) ← readItems? count rest
              some (item :: items, rest)
          | _ => none

/-- The members of a table in braces, up to the closing brace, added to those before. -/
def readMembers? : Nat → Members → List Char → Option (Members × List Char)
  | 0, _, _ => none
  | count + 1, members, text => do
      match ← skipGap false text with
      | '\x7d' :: rest => some (members, rest)
      | text =>
          let (key, rest) ← readKey? (count + 1) text
          match rest with
          | '=' :: rest =>
              let (value, rest) ← readValue? count (skipSpace rest)
              let members ← assign key value members
              match ← skipGap false rest with
              | '\x7d' :: rest => some (members, rest)
              | ',' :: rest => readMembers? count members rest
              | _ => none
          | _ => none

end

/-! Statements. -/

/-- Read statements, with the header of the table that they belong to. -/
def readStatements? : Nat → List String → Members → List Char → Option Members
  | 0, _, _, _ => none
  | count + 1, header, members, text => do
      match ← skipGap false text with
      | [] => some members
      | '[' :: '[' :: rest =>
          match ← readKey? (count + 1) rest with
          | (path, ']' :: ']' :: rest) =>
              readStatements? count path (← appendTable path members) (← endLine? rest)
          | _ => none
      | '[' :: rest =>
          match ← readKey? (count + 1) rest with
          | (path, ']' :: rest) =>
              readStatements? count path (← openTable path members) (← endLine? rest)
          | _ => none
      | text =>
          match ← readKey? (count + 1) text with
          | (path, '=' :: rest) =>
              let (value, rest) ← readValue? (count + 1) (skipSpace rest)
              readStatements? count header (← assignIn header path value members)
                (← endLine? rest)
          | _ => none

/-- A mark of the byte order may stand in front of a text. -/
def dropByteOrderMark : List Char → List Char
  | '\ufeff' :: rest => rest
  | text => text

/-- The members of a document. -/
def parse? (text : String) : Option (List (String × Value)) :=
  let source := dropByteOrderMark text.toList
  (readStatements? (source.length + 1) [] [] source).map memberValues

end ArchiveRemap.Toml
