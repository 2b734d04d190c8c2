import ArchiveRemap.Dictionary
import ArchiveRemap.Text.Cut
import ArchiveRemap.Json.Taking

/-!
Reference maps: for each mixin class, what the symbols in its annotations stand for. They
are JSON documents, sorted by class and by symbol.
-/

namespace ArchiveRemap.Mixin

/-- The references of one class, by symbol. -/
abbrev ClassEntries := Dictionary String

structure ReferenceMap where
  mappings : Dictionary ClassEntries
  deriving DecidableEq

namespace ReferenceMap

open Json (Value Tree)

def empty : ReferenceMap := ⟨.empty⟩

def isEmpty (refmap : ReferenceMap) : Bool :=
  refmap.mappings.entries.all fun (_, entries) => entries.isEmpty

/-- Number of references over all classes. -/
def size (refmap : ReferenceMap) : Nat :=
  refmap.mappings.entries.foldl (fun total (_, entries) => total + entries.size) 0

def class? (refmap : ReferenceMap) (className : String) : Option ClassEntries :=
  refmap.mappings.get? className

def get? (refmap : ReferenceMap) (className symbol : String) : Option String := do
  let entries ← refmap.class? className
  entries.get? symbol

/-- Add references of a class; no references leave the map as it is. -/
def extend (refmap : ReferenceMap) (className : String) (entries : ClassEntries) :
    ReferenceMap :=
  if entries.isEmpty then refmap
  else
    let known := (refmap.class? className).getD .empty
    ⟨refmap.mappings.insert className (known.insertAll entries.entries)⟩

def entriesToJson (entries : ClassEntries) : Value :=
  .object (entries.entries.map fun (symbol, value) => (symbol, .string value))

def toJson (refmap : ReferenceMap) : Value :=
  .object [("mappings", .object (refmap.mappings.entries.map fun (className, entries) =>
    (className, entriesToJson entries)))]

/-- The text of the map as it is stored. -/
def write (refmap : ReferenceMap) : String := refmap.toJson.indentedText

def takeEntries? (tree : Tree) : Option ClassEntries := do
  let pairs ← (← tree.members?).mapM fun (symbol, value) =>
    value.string?.map fun text => (symbol, text)
  some (.ofList pairs)

def takeMappings? (tree : Tree) : Option (Dictionary ClassEntries) := do
  let pairs ← (← tree.members?).mapM fun (className, value) =>
    (takeEntries? value).map fun entries => (className, entries)
  some (.ofList pairs)

def take? (tree : Tree) : Option ReferenceMap := do
  match ← tree.record? ["mappings"] with
  | [mappings] => some ⟨← Tree.orAbsent .empty takeMappings? mappings⟩
  | _ => none

def parse? (text : String) : Option ReferenceMap := (Json.parse? text).bind take?

end ReferenceMap

/-- The reference maps of one hop, by file. -/
abbrev Refmaps := Dictionary ReferenceMap

namespace Refmaps

def add (refmaps : Refmaps) (file className : String) (entries : ClassEntries) : Refmaps :=
  if entries.isEmpty then refmaps
  else refmaps.insert file (((refmaps.get? file).getD .empty).extend className entries)

/-- The maps that hold at least one reference. -/
def nonEmpty (refmaps : Refmaps) : Refmaps := refmaps.filter fun _ refmap => !refmap.isEmpty

end Refmaps

/-- Whether a file of this name is a reference map. -/
def isRefmapName (name : String) : Bool :=
  Text.holds "refmap".toList name.toList && Text.endsWith ".json".toList name.toList

end ArchiveRemap.Mixin
