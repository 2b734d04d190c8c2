import ArchiveRemap.CommandLine.Execute

/-!
The program. It gathers the files that its arguments and settings name into a tree, runs on
the tree, and brings what changed back to the disk. Artifacts are gathered when a run turns
out to want them, and the run is then repeated.
-/

namespace ArchiveRemap.CommandLine

/-! Gathering. -/

/-- What a path of the disk leads to. -/
inductive Found where
  | nothing
  | directory
  | file (content : String)

def diskPath (place : Place) : String := "/" ++ String.intercalate "/" place

def lookAt (place : Place) : IO Found := do
  match ← (IO.FS.Handle.mk (diskPath place) .read).toBaseIO with
  | .error _ => return .nothing
  | .ok handle =>
      match ← handle.readToEnd.toBaseIO with
      | .ok content => return .file content
      | .error _ => return .directory

/-- Add what stands at a place to a tree, unless it is known. -/
def gatherPlace (tree : FileTree) (place : Place) : IO FileTree := do
  if tree.isFree place then
    match ← lookAt place with
    | .nothing => return tree
    | .directory => return { tree with directories := tree.directories ++ [place] }
    | .file content => return tree.putFile place content
  else return tree

/-- Add what a path leads to, and the directories on its way. -/
def gatherPath (tree : FileTree) (path : String) : IO FileTree := do
  let parts := PathText.parts path
  let mut tree := tree
  for count in List.range parts.length do
    let way := String.intercalate "/" (parts.take (count + 1))
    match tree.locate (if way = "" then "/" else way) with
    | .ok place => tree ← gatherPlace tree place
    | .error _ => pure ()
  return tree

/-- The paths that a command reads. -/
def pathsOf (settings : Settings) (userCaches : Option String) : Command → List String
  | .remap input output _ =>
      [input, output, settings.artifactDirectory userCaches] ++ settings.mappings ++
        settings.classpath.archives ++ settings.classpath.libraries
  | .path _ => []
  | .tiny _ _ output => output :: settings.mappings

def gather (userCaches : Option String) (arguments : List String) (tree : FileTree) :
    IO FileTree := do
  match parse? arguments with
  | some (.run settingsPath command) =>
      let mut tree ← gatherPath tree settingsPath
      match Settings.load tree settingsPath with
      | .error _ => return tree
      | .ok settings =>
          for path in pathsOf settings userCaches command do
            tree ← gatherPath tree path
          return tree
  | _ => return tree

/-! Running. -/

/-- The places whose content differs between two trees. -/
def changedPlaces (before after : FileTree) : List Place :=
  after.files.keys.filter fun place => after.file? place ≠ before.file? place

/-- Run until everything that the run writes is either new on the disk or was known. -/
partial def settle (userCaches : Option String) (arguments : List String)
    (seen : List Place) (tree : FileTree) : IO (Ending × FileTree × FileTree) := do
  let (ending, after) := execute userCaches arguments tree
  let unseen := (changedPlaces tree after).filter fun place => place ∉ seen
  let mut gathered := tree
  for place in unseen do
    gathered ← gatherPlace gathered place
  if gathered.files.length = tree.files.length then return (ending, tree, after)
  else settle userCaches arguments (seen ++ unseen) gathered

/-- Bring what changed back to the disk. A file takes its name when it is complete. -/
def putBack (before after : FileTree) : IO Unit := do
  for place in after.directories do
    if !before.isDirectory place then IO.FS.createDirAll (diskPath place)
  for place in changedPlaces before after do
    let path := diskPath place
    IO.FS.writeFile (path ++ ".tmp") ((after.file? place).getD "")
    IO.FS.rename (path ++ ".tmp") path

/-- The directory of the user's caches. -/
def userCaches : IO (Option String) := do
  match ← IO.getEnv "XDG_CACHE_HOME" with
  | some path => if PathText.isAbsolute path then return some path
  | none => pure ()
  return (← IO.getEnv "HOME").map fun home => PathText.join home ".cache"

/-- A failure with the chain of its causes. -/
def failureText (fault : SetupError) : String :=
  let causes := fault.causes.map Cause.text
  let numbered := match causes with
    | [] => []
    | [cause] => ["", "Caused by:", "    " ++ cause]
    | causes =>
        ["", "Caused by:"] ++ causes.zipIdx.map fun (cause, position) =>
          "    " ++ toString position ++ ": " ++ cause
  linesText (("Error: " ++ fault.message) :: numbered)

end ArchiveRemap.CommandLine

open ArchiveRemap ArchiveRemap.CommandLine in
def main (arguments : List String) : IO UInt32 := do
  let caches ← userCaches
  let here := (PathText.parts (toString (← IO.currentDir))).filter fun part => part ≠ ""
  let tree ← gather caches arguments (.emptyAt here)
  let (ending, before, after) ← settle caches arguments [] tree
  putBack before after
  match ending with
  | .printed text => (← IO.getStdout).putStr text
  | .failed fault => (← IO.getStderr).putStr (failureText fault)
  | .misused => (← IO.getStderr).putStr help
  return UInt32.ofNat ending.code
