import ArchiveRemap.Text.Cut

/-!
Paths as texts. A path is a list of parts with `/` between them; it is absolute if it starts
with `/`. Joining and taking parents work on the text alone and never look at files, so
`..` stays where it is.
-/

namespace ArchiveRemap.PathText

def isAbsolute (path : String) : Bool := Text.startsWith ['/'] path.toList

def parts (path : String) : List String := (path.toList.splitOn '/').map String.ofList

/-- A path inside another one. An absolute path is not inside any other, so it stays. -/
def join (base path : String) : String :=
  if isAbsolute path || base = "" then path
  else if Text.endsWith ['/'] base.toList then base ++ path
  else base ++ "/" ++ path

/-- A part that leads nowhere: nothing at all or a single dot. -/
def isIdle (part : List Char) : Bool := part = [] || part = ['.']

/-- What stands before the parts: the root, the directory itself, or nothing. -/
def anchor : List Char → List Char × List Char
  | '/' :: rest => (['/'], rest)
  | ['.'] => (['.'], [])
  | '.' :: '/' :: rest => (['.'], '/' :: rest)
  | text => ([], text)

/-- The path without its last part that leads somewhere. -/
def parent? (path : String) : Option String :=
  let (head, body) := anchor path.toList
  match (body.splitOn '/').reverse.dropWhile isIdle with
  | _ :: rest =>
      some (String.ofList (head ++ ['/'].intercalate (rest.dropWhile isIdle).reverse))
  | [] => if head = ['.'] then some "" else none

def climb : Nat → String → List String
  | 0, path => [path]
  | steps + 1, path =>
      path :: match parent? path with
        | some parent => climb steps parent
        | none => []

/-- The path, its parent, the parent of that and so on. -/
def ancestors (path : String) : List String := climb path.length path

/-- The directory that a file of this path stands in, `.` if the path does not say. -/
def directory (path : String) : String :=
  match parent? path with
  | some parent => if parent = "" then "." else parent
  | none => "."

/-- The last part. -/
def name (path : String) : String := ((parts path).getLast?).getD path

end ArchiveRemap.PathText
