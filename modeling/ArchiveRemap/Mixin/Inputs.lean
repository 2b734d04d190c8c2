import ArchiveRemap.Archive.Basic
import ArchiveRemap.Mixin.Refmap
import ArchiveRemap.Symbol.ClassName
import ArchiveRemap.Notice

/-!
What the archives of a hop say about their mixins: which classes their configs list, which
file takes the references of a class, and what earlier hops have written there. Reference
maps are read before configs, so a class that is in one keeps its file.
-/

namespace ArchiveRemap.Mixin

open Json (Value)

/-- Whether a file of this name is a mixin config. -/
def isConfigName (name : String) : Bool :=
  Text.holds "mixin".toList name.toList && Text.endsWith ".json".toList name.toList &&
    !isRefmapName name

/-- The reference map of a config that names none. -/
def derivedRefmap (path : String) : String :=
  String.ofList (Text.before ".json".toList (fileName path).toList) ++ "-refmap.json"

structure Inputs where
  /-- The file of each class, as a reference map or a config gives it first. -/
  classRefmaps : Keyed String String
  /-- Known reference maps in the order of their discovery. -/
  refmaps : Keyed String ReferenceMap
  /-- Configs with their reference map filled in. -/
  configs : Keyed String Value
  defaultRefmap : String

namespace Inputs

def empty (defaultRefmap : String) : Inputs := ⟨[], [], [], defaultRefmap⟩

def takeRefmap (inputs : Inputs) (path : String) (refmap : ReferenceMap) : Inputs :=
  { inputs with
    classRefmaps := refmap.mappings.keys.foldl
      (fun done className => done.putNew className path) inputs.classRefmaps
    refmaps := inputs.refmaps.put path refmap }

def readRefmaps (inputs : Inputs) : List (String × String) → Except MixinFault Inputs
  | [] => .ok inputs
  | (path, text) :: rest =>
      match ReferenceMap.parse? text with
      | some refmap => readRefmaps (inputs.takeRefmap path refmap) rest
      | none => .error (.badRefmap path)

/-- The mixin classes of a config. -/
def listedClasses (config : Value) : List String :=
  let package := ((config.member? "package").bind Value.string?).getD ""
  let listed := ["mixins", "client", "server"].flatMap fun key =>
    (((config.member? key).bind Value.array?).getD []).filterMap Value.string?
  listed.map fun name =>
    ClassName.ofDotted (if package.isEmpty then name else package ++ "." ++ name)

/-- Give a class its file unless it has one; a different one is worth a notice. -/
def assignClass (refmap : String) (inputs : Inputs) (className : String) :
    Inputs × List Notice :=
  match inputs.classRefmaps.get? className with
  | some existing =>
      (inputs, if existing = refmap then [] else [.classKept className existing refmap])
  | none =>
      ({ inputs with classRefmaps := inputs.classRefmaps.put className refmap }, [])

def assignClasses (refmap : String) (inputs : Inputs) : List String → Inputs × List Notice
  | [] => (inputs, [])
  | className :: rest =>
      let (inputs, first) := assignClass refmap inputs className
      let (inputs, more) := assignClasses refmap inputs rest
      (inputs, first ++ more)

def takeConfig (inputs : Inputs) (path : String) (config : Value) : Inputs × List Notice :=
  match config with
  | .object members =>
      let refmap := ((config.member? "refmap").bind Value.string?).getD (derivedRefmap path)
      let (inputs, notices) := inputs.assignClasses refmap (listedClasses config)
      let filled := Dictionary.insertSorted "refmap" (.string refmap) members
      ({ inputs with
          refmaps := inputs.refmaps.putNew refmap .empty
          configs := inputs.configs.put path (.object filled) }, notices)
  | _ => (inputs, [.configSkipped path])

/-- Read configs one after the other. Notices come out even when a later config fails. -/
def readConfigs (inputs : Inputs) :
    List (String × String) → Except MixinFault Inputs × List Notice
  | [] => (.ok inputs, [])
  | (path, text) :: rest =>
      match Value.parse? text with
      | none => (.error (.badConfig path), [])
      | some config =>
          let (inputs, first) := inputs.takeConfig path config
          let (result, more) := readConfigs inputs rest
          (result, first ++ more)

def read (defaultRefmap : String) (archives : List Archive) :
    Except MixinFault Inputs × List Notice :=
  let refmaps := archives.flatMap fun archive => archive.textsNamed isRefmapName
  let configs := archives.flatMap fun archive => archive.textsNamed isConfigName
  match (empty defaultRefmap).readRefmaps refmaps with
  | .ok inputs => inputs.readConfigs configs
  | .error fault => (.error fault, [])

/-- Whether a config or an earlier reference map lists a class. -/
def lists (inputs : Inputs) (className : String) : Bool := inputs.classRefmaps.has className

/-- The file that takes the references of a class. -/
def fileFor (inputs : Inputs) (className : String) : String :=
  match inputs.classRefmaps.get? className with
  | some file => file
  | none => (inputs.refmaps.keys.head?).getD inputs.defaultRefmap

/-- What an earlier hop wrote for a class. -/
def earlier? (inputs : Inputs) (className : String) : Option ClassEntries := do
  let file ← inputs.classRefmaps.get? className
  let refmap ← inputs.refmaps.get? file
  refmap.class? className

/-- Reference maps of the input that hold something. -/
def filledRefmaps (inputs : Inputs) : List (String × ReferenceMap) :=
  inputs.refmaps.filter fun (_, refmap) => !refmap.isEmpty

end Inputs

end ArchiveRemap.Mixin
