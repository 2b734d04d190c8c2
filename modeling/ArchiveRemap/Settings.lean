import ArchiveRemap.File.Tree
import ArchiveRemap.Mixin.Rule
import ArchiveRemap.Namespace.Graph
import ArchiveRemap.Number.Power
import ArchiveRemap.Toml.Reader

/-!
Settings of a remapper, written in TOML. A field that is not written has its default; a
field that is not known is an error. A group of fields is written as a table, or as an
array of its fields in order. Relative paths are meant relative to the file of the settings.
-/

namespace ArchiveRemap

/-- Archives that symbols are looked up in but that are not renamed themselves. Those of
`archives` are in one namespace, the root if none is named; those of `libraries` are the same
in every namespace. -/
structure Classpath where
  namespaceName : Option String
  archives : List String
  libraries : List String
  deriving DecidableEq, Repr

structure Settings where
  namespaces : List Declaration
  mappings : List String
  classpath : Classpath
  cacheDirectory : Option String
  threads : Nat
  patchState : Option String
  mixin : Mixin.Options
  ignoreMismatch : Bool
  deriving Repr

namespace Settings

open Toml (Value)

/-! Taking settings out of values. -/

def string? : Value → Option String
  | .string text => some text
  | _ => none

def bool? : Value → Option Bool
  | .bool truth => some truth
  | _ => none

/-- A count that fits into 64 bits. -/
def count? : Value → Option Nat
  | .integer number =>
      if 0 ≤ number && number < 2 ^ 64 then some number.toNat else none
  | _ => none

def listOf? {α : Type} (take : Value → Option α) : Value → Option (List α)
  | .array items => items.mapM take
  | _ => none

def orDefault {α : Type} (default : α) (take : Value → Option α) : Option Value → Option α
  | none => some default
  | some value => take value

def optional? {α : Type} (take : Value → Option α) : Option Value → Option (Option α) :=
  orDefault none fun value => (take value).map some

/-- The fields of a group, in the order of their names. Of an array, what comes after the
last field is passed over. -/
def group? (names : List String) : Value → Option (List (Option Value))
  | .table members =>
      if members.all fun member => member.1 ∈ names then
        some (names.map fun name => members.lookup name)
      else none
  | .array items => some (names.zipIdx.map fun (_, position) => items[position]?)
  | _ => none

def declaration? (value : Value) : Option Declaration := do
  match ← group? ["name", "named", "deps"] value with
  | [some name, named, dependencies] =>
      some ⟨← string? name, ← orDefault false bool? named,
        ← orDefault [] (listOf? string?) dependencies⟩
  | _ => none

def classpath? (value : Value) : Option Classpath := do
  match ← group? ["namespace", "archives", "libraries"] value with
  | [name, archives, libraries] =>
      some ⟨← optional? string? name, ← orDefault [] (listOf? string?) archives,
        ← orDefault [] (listOf? string?) libraries⟩
  | _ => none

def mixin? (value : Value) : Option Mixin.Options := do
  let usual := Mixin.Options.standard
  match ← group? ["enabled", "allow_implicit_wildcards", "default_refmap", "extras"] value with
  | [enabled, wildcards, refmap, extras] =>
      some ⟨← orDefault usual.enabled bool? enabled,
        ← orDefault usual.implicitWildcards bool? wildcards,
        ← orDefault usual.defaultRefmap string? refmap,
        ← orDefault usual.extras bool? extras⟩
  | _ => none

def ignoreMismatch? (value : Value) : Option Bool := do
  match ← group? ["ignore_namespace_mismatch"] value with
  | [ignore] => orDefault false bool? ignore
  | _ => none

def ofValue? (value : Value) : Option Settings := do
  match ← group?
      ["namespaces", "mappings", "classpath", "cache_dir", "threads", "patch_state", "mixin",
        "access_widener"] value with
  | [namespaces, mappings, classpath, cache, threads, patchState, mixin, widener] =>
      some
        { namespaces := ← orDefault [] (listOf? declaration?) namespaces
          mappings := ← orDefault [] (listOf? string?) mappings
          classpath := ← orDefault ⟨none, [], []⟩ classpath? classpath
          cacheDirectory := ← optional? string? cache
          threads := ← orDefault 0 count? threads
          patchState := ← optional? string? patchState
          mixin := ← orDefault Mixin.Options.standard mixin? mixin
          ignoreMismatch := ← orDefault false ignoreMismatch? widener }
  | _ => none

/-- The settings of a text. -/
def parse? (text : String) : Option Settings :=
  (Toml.parse? text).bind fun members => ofValue? (.table members)

/-! Paths. -/

/-- Mean every relative path relative to a directory. -/
def resolve (settings : Settings) (base : String) : Settings :=
  let inBase := PathText.join base
  { settings with
    mappings := settings.mappings.map inBase
    classpath :=
      { settings.classpath with
        archives := settings.classpath.archives.map inBase
        libraries := settings.classpath.libraries.map inBase }
    cacheDirectory := settings.cacheDirectory.map inBase }

/-- The directory of the artifacts: the one that is set, or one of the user's caches, or one
in the working directory for a user without caches. -/
def artifactDirectory (settings : Settings) (userCaches : Option String) : String :=
  match settings.cacheDirectory, userCaches with
  | some directory, _ => directory
  | none, some caches => PathText.join caches "nsremap"
  | none, none => ".nsremap-cache"

/-- The settings of a file, with paths relative to its directory. -/
def load (files : FileTree) (path : String) : Except SetupError Settings :=
  match files.read path with
  | .error cause => .error (.settingsUnreadable path cause)
  | .ok text =>
      match parse? text with
      | none => .error (.settingsRefused path)
      | some settings =>
          match PathText.parent? path with
          | some base => .ok (settings.resolve base)
          | none => .ok settings

end Settings

end ArchiveRemap
