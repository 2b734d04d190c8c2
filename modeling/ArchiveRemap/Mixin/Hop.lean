import ArchiveRemap.Mixin.Inputs
import ArchiveRemap.Mixin.Resolve

/-!
The work on mixins during one hop. All classes are collected first. Then, class by class in
the order of their names, string targets and hard tasks are resolved; last, in the order of
the classes themselves, everything that is left. The references of a class are written to
the file that the inputs name for it.
-/

namespace ArchiveRemap.Mixin

/-- New names of members of the input that come before the names of the table. -/
abbrev Renames := Keyed (MemberKind × MemberRef) String

def Renames.name? (renames : Renames) (kind : MemberKind) (owner name desc : String) :
    Option String :=
  renames.get? (kind, ⟨owner, name, desc⟩)

/-! What findings amount to. -/

def Finding.addEntry (entries : ClassEntries) : Finding → ClassEntries
  | .entry symbol value => entries.insert symbol value
  | _ => entries

def Finding.addRename (renames : Renames) : Finding → Renames
  | .rename kind member name => renames.put (kind, member) name
  | _ => renames

def Finding.notice? : Finding → Option Notice
  | .warning reported => some (.symbol reported)
  | _ => none

def noticesOf (findings : List Finding) : List Notice :=
  findings.filterMap Finding.notice?

/-- The state of a hop: the mixin classes not yet finished, and what came out so far. -/
structure HopState where
  contexts : Keyed String MixinWork
  renames : Renames
  refmaps : Refmaps
  notices : List Notice

namespace HopState

def empty : HopState := ⟨[], [], .empty, []⟩

end HopState

/-- What stays the same during a hop. -/
structure Hop where
  registry : Registry
  options : Options
  inputs : Inputs
  renamer : Renamer

namespace Hop

def scope (hop : Hop) (className : String) (targets : List String) : Scope :=
  { className := className
    targets := targets
    existing := hop.inputs.earlier? className
    renamer := hop.renamer
    implicitWildcards := hop.options.implicitWildcards }

/-! Collecting. -/

def unlisted (className : String) : Notice :=
  .symbol ⟨className, "@Mixin", className, .unlistedMixin⟩

/-- Collect one class; a mixin that nothing lists is worth a notice. -/
def collectClass (hop : Hop) (state : HopState) (node : ClassNode) : HopState :=
  match contextOf? hop.registry node with
  | none => state
  | some context =>
      { state with
        contexts := state.contexts.put node.name context
        notices := state.notices ++
          if hop.inputs.lists node.name then [] else [unlisted node.name] }

/-! Resolving ahead of the classes. -/

/-- Resolve the string targets of a class, then its hard tasks against all its targets. -/
def processClass (hop : Hop) (context : MixinWork) : MixinWork × List Finding :=
  let (early, tasks) := takeTasks Task.runsFirst context.tasks
  let (hard, tasks) := takeTasks Task.isHard tasks
  let first := targetFindings (hop.scope context.className []) early
  let targets := extendTargets context.targets early
  let renamed := (hop.scope context.className targets).hardFindings hard
  ({ context with
      targets := targets
      tasks := tasks
      entries := first.foldl Finding.addEntry context.entries },
    first ++ renamed)

def processNamed (hop : Hop) (state : HopState) (className : String) : HopState :=
  match state.contexts.get? className with
  | none => state
  | some context =>
      let (context, findings) := hop.processClass context
      { state with
        contexts := state.contexts.put className context
        renames := findings.foldl Finding.addRename state.renames
        notices := state.notices ++ noticesOf findings }

/-- All mixin classes in the order of their names. -/
def processAll (hop : Hop) (state : HopState) : HopState :=
  (state.contexts.keys.mergeSort fun left right => left ≤ right).foldl hop.processNamed state

/-! Finishing. -/

/-- Everything a class finds besides what it found ahead of the others. -/
def finishClass (hop : Hop) (context : MixinWork) : ClassEntries × List Finding :=
  let (tasks, _) := takeTasks (fun _ => true) context.tasks
  let findings := (hop.scope context.className context.targets).softFindings tasks
  (findings.foldl Finding.addEntry context.entries, findings)

/-- Finish the context of a class, if it still has one. -/
def finishNode (hop : Hop) (state : HopState) (node : ClassNode) : HopState :=
  match state.contexts.get? node.name with
  | none => state
  | some context =>
      let (entries, findings) := hop.finishClass context
      { state with
        contexts := state.contexts.erase node.name
        refmaps := Refmaps.add state.refmaps (hop.inputs.fileFor node.name) node.name entries
        notices := state.notices ++ noticesOf findings }

/-- The whole work on the classes of a hop. -/
def run (hop : Hop) (nodes : List ClassNode) : HopState :=
  let analyzed := nodes.foldl hop.collectClass .empty
  nodes.foldl hop.finishNode (hop.processAll analyzed)

/-! Writing. -/

/-- The maps to write: those with references, and an empty one in place of each map of the
input that got none. -/
def addStale (written : Refmaps) : List (String × ReferenceMap) → Refmaps × List Notice
  | [] => (written, [])
  | (file, stale) :: rest =>
      if written.has file then addStale written rest
      else
        let (all, notices) := addStale (written.insert file .empty) rest
        (all, .refmapEmptied file stale.size :: notices)

def writtenRefmaps (hop : Hop) (state : HopState) : Refmaps × List Notice :=
  addStale (Refmaps.nonEmpty state.refmaps) hop.inputs.filledRefmaps

/-- The configs and reference maps of a hop, put into an archive. -/
def addMixinFiles (hop : Hop) (state : HopState) (archive : Archive) :
    Archive × List Notice :=
  let withConfigs := hop.inputs.configs.foldl (fun done (path, config) =>
    done.putText path config.indentedText) archive
  let (refmaps, notices) := hop.writtenRefmaps state
  (refmaps.entries.foldl (fun done (file, refmap) =>
    done.putText file refmap.write) withConfigs, notices)

end Hop

end ArchiveRemap.Mixin
