import ArchiveRemap.Failure
import ArchiveRemap.Text.Line
import ArchiveRemap.Tiny.Tree

/-!
Reading Tiny v2 text. The first line is the header; each later line is a class, a member
of the class above it, or one of the lines that carry no names. Blank lines are passed
over. The first line that is none of these is the one that an error names.
-/

namespace ArchiveRemap.Tiny

/-- Backslash escapes of names; a backslash at the very end stands for itself. -/
def resolveEscapes : List Char → List Char
  | [] => []
  | '\\' :: 'n' :: rest => '\n' :: resolveEscapes rest
  | '\\' :: 't' :: rest => '\t' :: resolveEscapes rest
  | '\\' :: 'r' :: rest => '\r' :: resolveEscapes rest
  | '\\' :: '0' :: rest => '\x00' :: resolveEscapes rest
  | '\\' :: c :: rest => c :: resolveEscapes rest
  | c :: rest => c :: resolveEscapes rest

/-- A part of a line as text, with its escapes resolved if the file has escapes. -/
def partText (escaped : Bool) (part : List Char) : String :=
  String.ofList (if escaped then resolveEscapes part else part)

/-- A line by its leading tabs and the parts between the others. -/
structure Line where
  depth : Nat
  parts : List (List Char)
  deriving DecidableEq, Repr

def Line.ofText (text : List Char) : Line :=
  ⟨(text.takeWhile (· = '\t')).length, (text.dropWhile (· = '\t')).splitOn '\t'⟩

def Line.kind (line : Line) : String := String.ofList (line.parts.headD [])

/-- A row of names: not more than the columns, and one for the first of them. -/
def readRow (width : Nat) (escaped : Bool) (parts : List (List Char)) :
    Except TinyFault Row :=
  if width < parts.length then .error (.tooManyNames width parts.length)
  else
    let row := Row.widen width (parts.map fun part =>
      if part.isEmpty then none else some (partText escaped part))
    match row with
    | some _ :: _ => .ok row
    | _ => .error .noFirstName

/-- What has been read so far. -/
structure Reading where
  tree : Tree
  escaped : Bool
  current : Option String
  deriving DecidableEq, Repr

namespace Reading

def width (reading : Reading) : Nat := reading.tree.namespaces.length

/-- Open a class; a class that was there before is replaced where it stands. -/
def openClass (reading : Reading) (line : Line) : Except TinyFault Reading := do
  let row ← readRow reading.width reading.escaped (line.parts.drop 1)
  let key := row.firstName
  .ok { reading with
    tree := { reading.tree with classes := reading.tree.classes.put key ⟨row, [], []⟩ }
    current := some key }

def addMember (reading : Reading) (kind : MemberKind) (owner : String) (line : Line) :
    Except TinyFault Reading :=
  match line.parts with
  | _ :: desc :: names => do
      let row ← readRow reading.width reading.escaped names
      let member : MemberRow := ⟨partText reading.escaped desc, row⟩
      match reading.tree.classes.get? owner with
      | none => .error .outsideClass
      | some entry =>
          .ok { reading with
            tree := { reading.tree with
              classes := reading.tree.classes.put owner (entry.addMember kind member) } }
  | _ => .error .noDescriptor

def readLine (reading : Reading) (text : List Char) : Except TinyFault Reading :=
  if Text.allBlank text then .ok reading
  else
    let line := Line.ofText text
    let kind := line.kind
    match line.depth, reading.current with
    | 0, _ =>
        if kind = "c" then reading.openClass line
        else .error (.unexpectedEntry kind)
    | 1, none =>
        .ok (if kind = "escaped-names" then { reading with escaped := true } else reading)
    | 1, some owner =>
        if kind = "f" then reading.addMember .field owner line
        else if kind = "m" then reading.addMember .method owner line
        else if kind = "c" then .ok reading
        else .error (.unexpectedEntry kind)
    | _, _ => .ok reading

/-- Read lines from the given number on; a fault comes with the number of its line. -/
def readLines (number : Nat) (reading : Reading) :
    List (List Char) → Except (Nat × TinyFault) Reading
  | [] => .ok reading
  | text :: rest =>
      match reading.readLine text with
      | .ok reading => readLines (number + 1) reading rest
      | .error fault => .error (number, fault)

end Reading

/-- The namespaces of a header line. -/
def readHeader (line : List Char) : Except TinyFault (List String) :=
  match line.splitOn '\t' with
  | format :: version :: _ :: first :: rest =>
      if format = "tiny".toList && version = ['2'] then
        .ok ((first :: rest).map String.ofList)
      else .error (.badHeader (String.ofList line))
  | _ => .error (.badHeader (String.ofList line))

/-- Read the lines of a file. -/
def readFile (lines : List (List Char)) : Except (Nat × TinyFault) Tree :=
  match lines with
  | [] => .error (1, .emptyFile)
  | header :: rest =>
      match readHeader header with
      | .error fault => .error (1, fault)
      | .ok namespaces =>
          (Reading.readLines 2 ⟨⟨namespaces, []⟩, false, none⟩ rest).map (·.tree)

/-- The tree of a text; `origin` is the path that errors name. -/
def Tree.parse (origin text : String) : Except RequestError Tree :=
  match readFile (Text.lines text.toList) with
  | .ok tree => .ok tree
  | .error (line, fault) => .error (.mappingFormat origin line fault)

end ArchiveRemap.Tiny
