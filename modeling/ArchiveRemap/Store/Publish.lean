import ArchiveRemap.File.Tree
import ArchiveRemap.Store.Key

/-!
A store of artifacts in a directory. An artifact is staged in the directory of the store
and takes its name only when it is complete, so a look-up never finds a part of one.
-/

namespace ArchiveRemap

/-- A failure of a file operation as a failure of the path that it is about. -/
def onPath {α : Type} (path : String) : Except FileError α → Except ArchiveError α
  | .ok value => .ok value
  | .error cause => .error (.access path cause)

structure Store where
  root : String
  deriving DecidableEq, Repr

namespace Store

def pathOf (store : Store) (key : ArtifactId) : String :=
  PathText.join store.root key.fileName

def lookup? (store : Store) (files : FileTree) (key : ArtifactId) : Option String :=
  if files.isFileAt (store.pathOf key) then some (store.pathOf key) else none

/-- Make the directory of the store and stage an artifact in it. -/
def stage (store : Store) (files : FileTree) : Except ArchiveError Place × FileTree :=
  match files.makeDirectories store.root with
  | (.error cause, files) => (.error (.access store.root cause), files)
  | (.ok (), files) =>
      match files.stage store.root ".artifact-" with
      | .error cause => (.error (.access store.root cause), files)
      | .ok (staged, files) => (.ok staged, files)

/-- Produce an artifact and publish it under its key. What the producer tells besides the
content is passed on if it ran at all. When it fails, or the artifact cannot take its name,
what was staged is dropped. -/
def publish {α : Type} (store : Store) (key : ArtifactId)
    (produce : FileTree → Except ArchiveError String × α) (files : FileTree) :
    Except ArchiveError String × Option α × FileTree :=
  match store.stage files with
  | (.error fault, files) => (.error fault, none, files)
  | (.ok staged, files) =>
      let (content, told) := produce files
      match content with
      | .error fault => (.error fault, some told, files.dropFile staged)
      | .ok content =>
          let files := files.putFile staged content
          let path := store.pathOf key
          match files.commit staged path with
          | .error cause => (.error (.access path cause), some told, files.dropFile staged)
          | .ok files => (.ok path, some told, files)

end Store

/-- The digest of what a file holds. -/
def fileDigest (files : FileTree) (path : String) : Except ArchiveError String :=
  onPath path ((files.read path).map contentDigest)

/-- Copy a file over another one, staged next to its target. -/
def copyFile (files : FileTree) (source target : String) :
    Except ArchiveError Unit × FileTree :=
  let directory := PathText.directory target
  match files.stage directory ".copy-" with
  | .error cause => (.error (.access directory cause), files)
  | .ok (staged, files) =>
      match files.read source with
      | .error cause =>
          let cause := if cause = .isADirectory then .notAFile else cause
          (.error (.access source cause), files.dropFile staged)
      | .ok content =>
          let files := files.putFile staged content
          match files.commit staged target with
          | .error cause => (.error (.access target cause), files.dropFile staged)
          | .ok files => (.ok (), files)

end ArchiveRemap
