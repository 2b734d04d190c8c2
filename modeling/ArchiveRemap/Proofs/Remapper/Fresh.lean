import ArchiveRemap.Proofs.Remapper.Key
import ArchiveRemap.Remapper.Remap

/-!
What a hop writes when nothing is remembered and nothing is stored: a function of the
configuration and of the texts that the hop works on. Calls that are alike have all in common
that goes into a key. The graph does not go into it, and of the mapping data only the digest.
-/

namespace ArchiveRemap

/-! Renaming texts. -/

/-- The text of the renamed archive. -/
def renameTexts? (extras : Extras) (table : RenameTable) (classpath : List String)
    (input : String) : Option String := do
  let classpath ← classpath.mapM Archive.parse?
  let archive ← Archive.parse? input
  (Renaming.ofInputs table extras classpath [archive]).archive.toOption.map Archive.write

/-- The text that a hop makes of a text. -/
def hopText? (graph : Graph) (tree : Tiny.Tree) (extras : Extras) (source target : Nat)
    (classpath : List String) (input : String) : Option String := do
  let table ← (makeTable graph tree source target).toOption
  renameTexts? extras table classpath input

/-- The text that hops along a route make of an archive of the classpath. -/
def derivedText? (graph : Graph) (tree : Tiny.Tree) (libraries : List String) (input : String)
    (source : Nat) : List Nat → Option String
  | [] => some input
  | target :: rest => do
      let text ← hopText? graph tree .none source target libraries input
      derivedText? graph tree libraries text target rest

/-- The namespace that the archives of the classpath are in. -/
def baseOf? (graph : Graph) : Option String → Option Nat
  | some name => (graph.require name).toOption
  | none => some graph.root

/-- The texts of the classpath in a namespace. -/
def classpathTexts? (graph : Graph) (tree : Tiny.Tree) (archives libraries : List String)
    (target base : Nat) : Option (List String) :=
  if base = target then some (archives ++ libraries)
  else if archives.isEmpty then some libraries
  else do
    let route ← (graph.route (.direct base target)).toOption
    let derived ← archives.mapM fun archive => derivedText? graph tree libraries archive base route
    some (derived ++ libraries)

theorem readArchive_eq_ok_iff {files : FileTree} {path : String} {archive : Archive} :
    Remapper.readArchive files path = .ok archive ↔
      ∃ text, files.read path = .ok text ∧ Archive.parse? text = some archive := by
  unfold Remapper.readArchive
  cases files.read path with
  | error fault => simp [onPath, bind, Except.bind]
  | ok text =>
      simp only [onPath, bind, Except.bind, Archive.read, Except.ok.injEq, exists_eq_left']
      cases Archive.parse? text <;> simp

theorem mapM_readArchive_eq_ok {files : FileTree} {paths texts : List String}
    {archives : List Archive} (reads : files.Reads paths texts)
    (read : paths.mapM (Remapper.readArchive files) = .ok archives) :
    texts.mapM Archive.parse? = some archives := by
  have all := mapM_eq_ok_iff.mp read
  clear read
  induction reads generalizing archives with
  | nil =>
      cases all
      rfl
  | cons held _ ih =>
      obtain _ | ⟨first, others⟩ := all
      obtain ⟨text, again, parsed⟩ := readArchive_eq_ok_iff.mp first
      rw [held, Except.ok.injEq] at again
      subst again
      rw [List.mapM_cons, parsed, ih others]
      rfl

/-- What a hop writes is a function of the texts that it reads. -/
theorem renameTexts?_of_renameFile {options : HopOptions} {kind : HopRole}
    {table : RenameTable} {paths texts : List String} {input text content : String}
    {files : FileTree} (reads : files.Reads paths texts) (held : files.read input = .ok text)
    (renamed : (Remapper.renameFile options kind table paths input files).1 = .ok content) :
    renameTexts? (options.extras kind) table texts text = some content := by
  unfold Remapper.renameFile at renamed
  dsimp only at renamed
  cases parsed : paths.mapM (Remapper.readArchive files) with
  | error fault => rw [parsed] at renamed; cases renamed
  | ok archives =>
      rw [parsed] at renamed
      cases read : Remapper.readArchive files input with
      | error fault => rw [read] at renamed; cases renamed
      | ok archive =>
          rw [read] at renamed
          obtain ⟨same, again, known⟩ := readArchive_eq_ok_iff.mp read
          rw [held, Except.ok.injEq] at again
          subst again
          have written : (Renaming.ofInputs table (options.extras kind) archives
              [archive]).archive.map Archive.write = .ok content := renamed
          have taken : renameTexts? (options.extras kind) table texts text =
              (Renaming.ofInputs table (options.extras kind) archives
                [archive]).archive.toOption.map Archive.write := by
            rw [renameTexts?, mapM_readArchive_eq_ok reads parsed, known]
            rfl
          rw [taken]
          cases made : (Renaming.ofInputs table (options.extras kind) archives
              [archive]).archive with
          | error fault => rw [made] at written; cases written
          | ok archive =>
              rw [made] at written
              cases written
              rfl

/-! Calls. -/

/-- A hop with all that it works on: the configuration, and the texts of its input, of the
archives that its classpath is derived from and of the libraries. -/
structure HopCall where
  config : Config
  kind : HopRole
  input : String
  archives : List String
  libraries : List String
  source : Nat
  target : Nat
  deriving DecidableEq

namespace HopCall

def key (call : HopCall) : ArtifactId :=
  call.config.keyOf call.kind call.input call.archives call.libraries call.source call.target

/-- The classpath that a hop sees. -/
def classpath? (call : HopCall) : Option (List String) :=
  match call.kind with
  | .input =>
      (baseOf? call.config.graph call.config.options.classpath.namespaceName).bind
        (classpathTexts? call.config.graph call.config.tree call.archives call.libraries
          call.source)
  | .classpath => some call.libraries

/-- The text that the call writes if it runs afresh. -/
def fresh? (call : HopCall) : Option String := do
  let classpath ← call.classpath?
  hopText? call.config.graph call.config.tree (call.config.options.extras call.kind)
    call.source call.target classpath call.input

/-- Two calls with all in common that goes into a key. -/
structure Alike (left right : HopCall) : Prop where
  kind : left.kind = right.kind
  source : left.config.graph.name left.source = right.config.graph.name right.source
  target : left.config.graph.name left.target = right.config.graph.name right.target
  patchState : left.config.options.patchState = right.config.options.patchState
  mappings : left.config.tree.bytes = right.config.tree.bytes
  input : left.input = right.input
  libraries : left.libraries = right.libraries
  derived : left.kind = .input → left.archives = right.archives ∧
    left.config.options.classpath.namespaceName.getD "" =
      right.config.options.classpath.namespaceName.getD ""
  settings : left.kind = .input → left.config.options.mixin = right.config.options.mixin ∧
    left.config.options.ignoreMismatch = right.config.options.ignoreMismatch

/-- What a key leaves out, two calls have in common as well. -/
structure SameSetting (left right : HopCall) : Prop where
  graph : left.config.graph = right.config.graph
  tree : left.config.tree = right.config.tree
  namespaceName : left.config.options.classpath.namespaceName =
    right.config.options.classpath.namespaceName
  source : left.source = right.source
  target : left.target = right.target

variable {left right : HopCall}

namespace Alike

theorem key_eq (alike : Alike left right) : left.key = right.key := by
  have classpath : left.config.classpathParts left.kind left.archives left.libraries =
      right.config.classpathParts right.kind right.archives right.libraries := by
    rw [← alike.kind, alike.libraries]
    cases kind : left.kind with
    | input =>
        simp only [Config.classpathParts, (alike.derived kind).1, (alike.derived kind).2]
    | classpath => rfl
  have settings : left.config.options.fingerprint left.kind =
      right.config.options.fingerprint right.kind := by
    rw [← alike.kind]
    cases kind : left.kind with
    | input =>
        simp only [HopOptions.fingerprint, (alike.settings kind).1, (alike.settings kind).2]
    | classpath => rfl
  rw [key, key, Config.keyOf, Config.keyOf, alike.source, alike.target, alike.patchState,
    alike.input, Tiny.Tree.fingerprint, Tiny.Tree.fingerprint, alike.mappings, classpath,
    settings, alike.kind]

/-- Graph, mapping data and the namespace of the classpath are all that a key misses. -/
theorem fresh?_eq (alike : Alike left right) (same : SameSetting left right) :
    left.fresh? = right.fresh? := by
  have extras : left.config.options.extras left.kind =
      right.config.options.extras right.kind := by
    rw [← alike.kind]
    cases kind : left.kind with
    | input => simp only [HopOptions.extras, (alike.settings kind).1, (alike.settings kind).2]
    | classpath => rfl
  have classpath : left.classpath? = right.classpath? := by
    rw [classpath?, classpath?, ← alike.kind, alike.libraries]
    cases kind : left.kind with
    | input =>
        rw [(alike.derived kind).1, same.graph, same.tree, same.namespaceName, same.source]
    | classpath => rfl
  rw [fresh?, fresh?, classpath, extras, same.graph, same.tree, same.source, same.target,
    alike.input]

end Alike

end HopCall

end ArchiveRemap
