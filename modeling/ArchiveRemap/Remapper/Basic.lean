import ArchiveRemap.Archive.Document
import ArchiveRemap.Archive.Renaming
import ArchiveRemap.Namespace.Building
import ArchiveRemap.Namespace.Route
import ArchiveRemap.Settings
import ArchiveRemap.Store.Publish
import ArchiveRemap.Tiny.Catalog
import ArchiveRemap.Tiny.Files

/-!
The remapper and the world that it works in. A remapper knows its graph and mapping data and
remembers routes and tables; everything else that it leaves behind is in files. A run is a
step in a world, which goes on from whatever a failed run left.
-/

namespace ArchiveRemap

/-- What shapes the hops besides graph and mapping data. -/
structure HopOptions where
  store : Store
  patchState : Option String
  mixin : Mixin.Options
  ignoreMismatch : Bool
  classpath : Classpath
  deriving DecidableEq, Repr

namespace HopOptions

def ofSettings (settings : Settings) (userCaches : Option String) : HopOptions :=
  { store := ⟨settings.artifactDirectory userCaches⟩
    patchState := settings.patchState
    mixin := settings.mixin
    ignoreMismatch := settings.ignoreMismatch
    classpath := settings.classpath }

def truthPart (truth : Bool) : String := if truth then "1" else "0"

/-- The digest of the options that a hop of a kind depends on. A hop of the classpath does
nothing but rename, so it depends on none. -/
def fingerprint (options : HopOptions) : HopRole → String
  | .input =>
      partsDigest
        [truthPart options.mixin.enabled, truthPart options.mixin.implicitWildcards,
          options.mixin.defaultRefmap, truthPart options.mixin.extras,
          truthPart options.ignoreMismatch]
  | .classpath => ""

/-- What a hop of a kind does besides renaming. -/
def extras (options : HopOptions) : HopRole → Extras
  | .input =>
      { mixin :=
          if options.mixin.enabled then
            some (Mixin.Registry.standard options.mixin.extras, options.mixin)
          else none
        sideFiles := [.widener options.ignoreMismatch, .transformer] }
  | .classpath => .none

end HopOptions

structure Remapper where
  catalog : Catalog
  routes : RouteCache
  options : HopOptions

namespace Remapper

def graph (remapper : Remapper) : Graph := remapper.catalog.graph

def ofCatalog (catalog : Catalog) (options : HopOptions) : Remapper := ⟨catalog, [], options⟩

/-- The catalog of some namespaces and mapping files, and what there is to notice. -/
def loadCatalog (files : FileTree) (namespaces : List Declaration) (mappings : List String) :
    Except SetupError Catalog × List Notice :=
  match Graph.build namespaces with
  | .error fault => (.error (.remap fault), [])
  | .ok graph =>
      ((Tiny.Tree.loadAll files mappings).map (Catalog.ofTree graph), graph.notices)

def load (files : FileTree) (settings : Settings) (userCaches : Option String) :
    Except SetupError Remapper × List Notice :=
  let (catalog, notices) := loadCatalog files settings.namespaces settings.mappings
  (catalog.map fun catalog => ofCatalog catalog (.ofSettings settings userCaches), notices)

/-- Take on other namespaces and mapping data. Nothing remembered stays; the artifacts in the
store do, but their keys name the old data. -/
def withCatalog (remapper : Remapper) (catalog : Catalog) : Remapper :=
  ofCatalog catalog remapper.options

end Remapper

structure World where
  remapper : Remapper
  files : FileTree
  notices : List Notice

/-- A run that may fail, in a world that stays as the run leaves it. -/
abbrev Run := ExceptT RequestError (StateM World)

namespace Run

/-- A step on the remembered routes. -/
def route (request : Request) : Run (List Nat) :=
  ExceptT.mk fun world =>
    let (result, routes) := world.remapper.routes.route world.remapper.graph request
    (result, { world with remapper := { world.remapper with routes } })

/-- A step on the remembered tables. -/
def table (source target : Nat) : Run RenameTable :=
  ExceptT.mk fun world =>
    let (result, catalog) := world.remapper.catalog.table source target
    (result, { world with remapper := { world.remapper with catalog } })

/-- The failure of an archive operation on the way from one namespace to another. -/
def failed {α : Type} (graph : Graph) (source target : Nat) :
    Except ArchiveError α → Except RequestError α
  | .ok value => .ok value
  | .error cause => .error (.engine (graph.name source) (graph.name target) cause)

/-- A step that reads files on the way from one namespace to another. -/
def reading {α : Type} (source target : Nat)
    (read : Remapper → FileTree → Except ArchiveError α) : Run α :=
  ExceptT.mk fun world =>
    (failed world.remapper.graph source target (read world.remapper world.files), world)

/-- A step that changes files on the way from one namespace to another. -/
def changing {α : Type} (source target : Nat)
    (change : Remapper → FileTree → Except ArchiveError α × List Notice × FileTree) :
    Run α :=
  ExceptT.mk fun world =>
    let (result, notices, files) := change world.remapper world.files
    (failed world.remapper.graph source target result,
      { world with files, notices := world.notices ++ notices })

end Run

end ArchiveRemap
