import ArchiveRemap.Remapper.Basic

/-!
Hops. A hop renames one archive between two neighbouring namespaces. Its artifact is kept
under a key of everything that it depends on, and a hop whose artifact is there already
reads its reference maps from it instead of running again.
-/

namespace ArchiveRemap

/-- What came of a hop. A hop that did not run has no warnings. -/
structure HopResult where
  source : String
  target : String
  artifact : String
  cached : Bool
  warnings : List Warning
  refmaps : Mixin.Refmaps

namespace Remapper

/-- The digest of the classpath that a hop of a kind sees. The archives stand for what is
derived from them. -/
def classpathDigest (remapper : Remapper) (files : FileTree) (kind : HopRole) :
    Except ArchiveError String := do
  let classpath := remapper.options.classpath
  let derived ← match kind with
    | .input => do
        .ok (classpath.namespaceName.getD "" :: (← classpath.archives.mapM (fileDigest files)))
    | .classpath => .ok []
  let shared ← classpath.libraries.mapM (fileDigest files)
  .ok (partsDigest (derived ++ "" :: shared))

def keyOf (remapper : Remapper) (files : FileTree) (kind : HopRole) (input : String)
    (source target : Nat) : Except ArchiveError ArtifactId := do
  .ok
    { target := remapper.graph.name target
      source := remapper.graph.name source
      patchState := remapper.options.patchState
      input := ← fileDigest files input
      mappings := remapper.catalog.fingerprint
      classpath := ← remapper.classpathDigest files kind
      settings := remapper.options.fingerprint kind
      kind := kind }

/-! Reading archives and artifacts. -/

def readArchive (files : FileTree) (path : String) : Except ArchiveError Archive := do
  Archive.read path (← onPath path (files.read path))

/-- The reference maps in an archive that hold at least one reference. -/
def storedRefmaps (files : FileTree) (path : String) : Except ArchiveError Mixin.Refmaps := do
  let archive ← readArchive files path
  let refmaps ← (archive.textsNamed Mixin.isRefmapName).mapM fun (entry, text) =>
    match Mixin.ReferenceMap.parse? text with
    | some refmap => .ok (entry, refmap)
    | none => .error (ArchiveError.malformed (PathText.join path entry))
  .ok (Mixin.Refmaps.nonEmpty (Dictionary.ofList refmaps))

/-- Rename an archive against a classpath. The text of the result is what is stored. -/
def renameFile (options : HopOptions) (kind : HopRole) (table : RenameTable)
    (classpath : List String) (input : String) (files : FileTree) :
    Except ArchiveError String × Renaming :=
  let read : Except ArchiveError (List Archive × Archive) := do
    let classpath ← classpath.mapM (readArchive files)
    .ok (classpath, ← readArchive files input)
  match read with
  | .error fault => (.error fault, ⟨.error fault, .empty, []⟩)
  | .ok (classpath, archive) =>
      let made := Renaming.ofInputs table (options.extras kind) classpath [archive]
      (made.archive.map Archive.write, made)

/-- Rename an archive and publish the result under its key. -/
def publishHop (key : ArtifactId) (table : RenameTable) (classpath : List String)
    (input : String) (remapper : Remapper) (files : FileTree) :
    Except ArchiveError HopResult × List Notice × FileTree :=
  let options := remapper.options
  let (published, told, files) := options.store.publish key
    (renameFile options key.kind table classpath input) files
  let notices := (told.map (·.notices)).getD []
  let refmaps := (told.map (·.refmaps)).getD .empty
  (published.map fun path =>
      ⟨key.source, key.target, path, false, Notice.warnings notices, refmaps⟩,
    notices, files)

/-! Running hops. -/

/-- Run a hop, unless its artifact is there. The classpath is only looked for when the hop
has to run. -/
def makeHop (kind : HopRole) (classpath : Run (List String)) (input : String)
    (source target : Nat) : Run HopResult := do
  let key ← Run.reading source target fun remapper files =>
    remapper.keyOf files kind input source target
  let found ← Run.reading source target fun remapper files =>
    .ok (remapper.options.store.lookup? files key)
  match found with
  | some path =>
      let refmaps ← Run.reading source target fun _ files => storedRefmaps files path
      pure ⟨key.source, key.target, path, true, [], refmaps⟩
  | none =>
      let table ← Run.table source target
      let classpath ← classpath
      Run.changing source target (publishHop key table classpath input)

/-- Run hops one after the other, each on the artifact of the one before it. -/
def makeHops (hop : String → Nat → Nat → Run HopResult) (input : String) (source : Nat) :
    List Nat → Run (List HopResult)
  | [] => pure []
  | target :: rest => do
      let report ← hop input source target
      let reports ← makeHops hop report.artifact target rest
      pure (report :: reports)

/-- The file that a chain of hops leads to. -/
def lastArtifact (input : String) (reports : List HopResult) : String :=
  (reports.getLast?.map (·.artifact)).getD input

/-- A hop of an archive of the classpath, which sees the libraries only. -/
def classpathHop (options : HopOptions) : String → Nat → Nat → Run HopResult :=
  makeHop .classpath (pure options.classpath.libraries)

/-- The classpath in a namespace: the archives, brought there hop by hop, and then the
libraries. -/
def classpathAt (target : Nat) : Run (List String) := do
  let world ← get
  let graph := world.remapper.graph
  let options := world.remapper.options
  let classpath := options.classpath
  let base ← ExceptT.mk (pure (match classpath.namespaceName with
    | some name => graph.require name
    | none => .ok graph.root))
  if base = target then pure (classpath.archives ++ classpath.libraries)
  else if classpath.archives.isEmpty then pure classpath.libraries
  else
    let route ← Run.route (.direct base target)
    let archives ← classpath.archives.mapM fun archive => do
      let reports ← makeHops (classpathHop options) archive base route
      pure (lastArtifact archive reports)
    pure (archives ++ classpath.libraries)

/-- A hop of the archive that was asked for. -/
def inputHop (input : String) (source target : Nat) : Run HopResult :=
  makeHop .input (classpathAt source) input source target

end Remapper

end ArchiveRemap
