import ArchiveRemap.Failure
import ArchiveRemap.File.PathText
import ArchiveRemap.Keyed

/-!
A tree of text files. A place is the list of names that leads to it from the root. A path is
followed part by part, and each part but the last has to be a directory. An operation that
fails leaves the tree as it was; only making a chain of directories may stop halfway.
-/

namespace ArchiveRemap

/-- Names from the root down. -/
abbrev Place := List String

structure FileTree where
  files : Keyed Place String
  directories : List Place
  here : Place
  deriving DecidableEq, Repr

namespace FileTree

/-- A tree without files, seen from a directory in it. -/
def emptyAt (here : Place) : FileTree :=
  ⟨[], (List.range here.length).map fun k => here.take (k + 1), here⟩

def file? (tree : FileTree) (place : Place) : Option String := tree.files.get? place

/-- The root is always a directory. -/
def isDirectory (tree : FileTree) (place : Place) : Bool :=
  place = [] || place ∈ tree.directories

def isFree (tree : FileTree) (place : Place) : Bool :=
  (tree.file? place).isNone && !tree.isDirectory place

/-! Following paths. -/

def step (tree : FileTree) (place : Place) (part : String) : Except FileError Place :=
  if !tree.isDirectory place then
    .error (if (tree.file? place).isSome then .notADirectory else .notFound)
  else if part = "" || part = "." then .ok place
  else if part = ".." then .ok place.dropLast
  else if 255 < part.utf8ByteSize then .error .nameTooLong
  else .ok (place ++ [part])

/-- The place that a path leads to, where there may be nothing yet. -/
def locate (tree : FileTree) (path : String) : Except FileError Place :=
  if '\x00' ∈ path.toList then .error .invalidName
  else if path = "" then .error .notFound
  else
    (PathText.parts path).foldlM tree.step
      (if PathText.isAbsolute path then [] else tree.here)

def read (tree : FileTree) (path : String) : Except FileError String := do
  let place ← tree.locate path
  if tree.isDirectory place then .error .isADirectory
  else
    match tree.file? place with
    | some content => .ok content
    | none => .error .notFound

def isFileAt (tree : FileTree) (path : String) : Bool := (tree.read path).isOk

def isDirectoryAt (tree : FileTree) (path : String) : Bool :=
  match tree.locate path with
  | .ok place => tree.isDirectory place
  | .error _ => false

/-- Names of what stands directly in a directory. -/
def list (tree : FileTree) (path : String) : List String :=
  match tree.locate path with
  | .error _ => []
  | .ok place =>
      (tree.files.keys ++ tree.directories).filterMap fun other =>
        if other.dropLast = place then other.getLast? else none

/-! Changing single files. -/

def putFile (tree : FileTree) (place : Place) (content : String) : FileTree :=
  { tree with files := tree.files.put place content }

def dropFile (tree : FileTree) (place : Place) : FileTree :=
  { tree with files := tree.files.erase place }

/-- Write a file, in place of the one that is there. -/
def write (tree : FileTree) (path content : String) : Except FileError FileTree := do
  let place ← tree.locate path
  if tree.isDirectory place then .error .isADirectory
  else .ok (tree.putFile place content)

def remove (tree : FileTree) (path : String) : Except FileError FileTree := do
  let place ← tree.locate path
  if tree.isDirectory place then .error .isADirectory
  else if (tree.file? place).isNone then .error .notFound
  else .ok (tree.dropFile place)

/-! Making directories. -/

def bare (path : String) : String :=
  String.ofList (Text.trimEnd (fun c => c = '/') path.toList)

/-- Make one directory in a directory that is there. -/
def makeDirectory (tree : FileTree) (path : String) : Except FileError FileTree := do
  let place ← tree.locate (bare path)
  if tree.isFree place then .ok { tree with directories := tree.directories ++ [place] }
  else .error .alreadyExists

/-- Make a directory unless it is there. -/
def requireDirectory (tree : FileTree) (path : String) : Except FileError FileTree :=
  match tree.makeDirectory path with
  | .ok tree => .ok tree
  | .error fault => if tree.isDirectoryAt path then .ok tree else .error fault

/-- Make the first of some paths, each the parent of the one before it, and before that
those of the others that are missing. -/
def makeChain (tree : FileTree) : List String → Except FileError Unit × FileTree
  | [] => (.error .notFound, tree)
  | path :: parents =>
      if path = "" then (.ok (), tree)
      else
        match tree.requireDirectory path with
        | .ok tree => (.ok (), tree)
        | .error .notFound =>
            match tree.makeChain parents with
            | (.error fault, tree) => (.error fault, tree)
            | (.ok (), tree) =>
                match tree.requireDirectory path with
                | .ok tree => (.ok (), tree)
                | .error fault => (.error fault, tree)
        | .error fault => (.error fault, tree)

/-- Make a directory with all its parents. -/
def makeDirectories (tree : FileTree) (path : String) : Except FileError Unit × FileTree :=
  tree.makeChain (PathText.ancestors path)

/-! What the changes do to files. -/

theorem file?_putFile (tree : FileTree) (place other : Place) (content : String) :
    (tree.putFile place content).file? other =
      if place = other then some content else tree.file? other :=
  Keyed.get?_put place other content tree.files

theorem files_of_makeDirectory {tree made : FileTree} {path : String}
    (done : tree.makeDirectory path = .ok made) : made.files = tree.files := by
  unfold makeDirectory at done
  cases found : tree.locate (bare path) with
  | error fault => rw [found] at done; cases done
  | ok place =>
      rw [found] at done
      change (if tree.isFree place then _ else _) = _ at done
      split at done
      · cases done; rfl
      · cases done

theorem files_of_requireDirectory {tree made : FileTree} {path : String}
    (done : tree.requireDirectory path = .ok made) : made.files = tree.files := by
  unfold requireDirectory at done
  split at done
  · rename_i made' found
    cases done
    exact files_of_makeDirectory found
  · split at done
    · cases done; rfl
    · cases done

/-- Directories are made without touching any file, also when the chain breaks off. -/
theorem files_makeChain (tree : FileTree) (paths : List String) :
    (tree.makeChain paths).2.files = tree.files := by
  induction paths generalizing tree with
  | nil => rfl
  | cons path parents ih =>
      unfold makeChain
      split
      · rfl
      · split
        · rename_i made found
          exact files_of_requireDirectory found
        · have kept := ih tree
          split
          · rename_i fault after broken
            rw [broken] at kept
            exact kept
          · rename_i after chained
            rw [chained] at kept
            split
            · rename_i made found
              exact (files_of_requireDirectory found).trans kept
            · exact kept
        · rfl

/-! Replacing files as a whole. New content is staged in a file of its own, in the directory
where it is to go, and takes its final name in one step. -/

/-- A name for a staged file. -/
def stagedName (stem : String) (number : Nat) : String :=
  stem ++ toString number ++ ".tmp"

/-- The first number whose name is free in a directory. -/
def freeNumber (tree : FileTree) (directory : Place) (stem : String) : Nat :=
  ((List.range (tree.files.length + tree.directories.length + 1)).find? fun number =>
    tree.isFree (directory ++ [stagedName stem number])).getD 0

/-- Stage an empty file in a directory. -/
def stage (tree : FileTree) (directory stem : String) : Except FileError (Place × FileTree) := do
  let parent ← tree.locate directory
  if !tree.isDirectory parent then
    .error (if (tree.file? parent).isSome then .notADirectory else .notFound)
  else
    let place := parent ++ [stagedName stem (tree.freeNumber parent stem)]
    .ok (place, tree.putFile place "")

/-- Whether the last part of a path names something in a directory. -/
def endsInName (path : String) : Bool :=
  PathText.name (bare path) ∉ ["", ".", ".."]

/-- Give a staged file its name, in place of a file that has it. -/
def commit (tree : FileTree) (staged : Place) (path : String) : Except FileError FileTree := do
  let place ← tree.locate (bare path)
  if !endsInName path then .error .busy
  else if Text.endsWith ['/'] path.toList then .error .notADirectory
  else if tree.isDirectory place then .error .isADirectory
  else .ok ((tree.dropFile staged).putFile place ((tree.file? staged).getD ""))

end FileTree

end ArchiveRemap
