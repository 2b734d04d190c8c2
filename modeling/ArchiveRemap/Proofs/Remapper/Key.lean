import ArchiveRemap.Remapper.Hop
import Mathlib.Data.List.Forall2

/-!
The key of a hop, from the texts that it is made of. A hop that reads the same texts under
the same configuration has the same key, wherever the texts are.
-/

namespace ArchiveRemap

theorem mapM_eq_ok_iff {α β ε : Type} {step : α → Except ε β} {values : List α}
    {results : List β} : values.mapM step = .ok results ↔
      List.Forall₂ (fun value result => step value = .ok result) values results := by
  induction values generalizing results with
  | nil =>
      constructor
      · intro done
        cases done
        exact .nil
      · intro all
        cases all
        rfl
  | cons value rest ih =>
      rw [List.mapM_cons]
      constructor
      · intro done
        cases first : step value with
        | error fault => rw [first] at done; cases done
        | ok result =>
            rw [first] at done
            cases others : rest.mapM step with
            | error fault => rw [others] at done; cases done
            | ok more =>
                rw [others] at done
                cases done
                exact .cons first (ih.mp others)
      · intro all
        cases all with
        | cons first others =>
            rw [first, ih.mpr others]
            rfl

/-- The texts that some paths lead to. -/
def FileTree.Reads (files : FileTree) : List String → List String → Prop :=
  List.Forall₂ fun path text => files.read path = .ok text

theorem FileTree.Reads.imp {files later : FileTree} {paths texts : List String}
    (reads : files.Reads paths texts)
    (still : ∀ path ∈ paths, ∀ text, files.read path = .ok text → later.read path = .ok text) :
    later.Reads paths texts := by
  induction reads with
  | nil => exact .nil
  | cons held _ ih =>
      rw [List.forall_mem_cons] at still
      exact .cons (still.1 _ held) (ih still.2)

theorem onPath_eq_ok_iff {α : Type} {path : String} {result : Except FileError α} {value : α} :
    onPath path result = .ok value ↔ result = .ok value := by
  cases result <;> simp [onPath]

theorem fileDigest_eq_ok_iff {files : FileTree} {path digest : String} :
    fileDigest files path = .ok digest ↔
      ∃ text, files.read path = .ok text ∧ digest = contentDigest text := by
  unfold fileDigest
  rw [onPath_eq_ok_iff]
  cases files.read path with
  | error fault => simp [Except.map]
  | ok text => simp [Except.map, eq_comm]

theorem mapM_fileDigest_eq_ok_iff {files : FileTree} {paths digests : List String} :
    paths.mapM (fileDigest files) = .ok digests ↔
      ∃ texts, files.Reads paths texts ∧ digests = texts.map contentDigest := by
  rw [mapM_eq_ok_iff]
  constructor
  · intro all
    induction all with
    | nil => exact ⟨[], .nil, rfl⟩
    | cons first _ ih =>
        obtain ⟨text, held, rfl⟩ := fileDigest_eq_ok_iff.mp first
        obtain ⟨texts, reads, rfl⟩ := ih
        exact ⟨text :: texts, .cons held reads, rfl⟩
  · rintro ⟨texts, reads, rfl⟩
    induction reads with
    | nil => exact .nil
    | cons held _ ih => exact .cons (fileDigest_eq_ok_iff.mpr ⟨_, held, rfl⟩) ih

/-- What a remapper is configured with. -/
structure Config where
  graph : Graph
  tree : Tiny.Tree
  options : HopOptions
  deriving DecidableEq

namespace Config

/-- The archives that a hop of a kind derives its classpath from. -/
def derivedFrom (config : Config) : HopRole → List String
  | .input => config.options.classpath.archives
  | .classpath => []

/-- The parts of the digest of the classpath. -/
def classpathParts (config : Config) (kind : HopRole) (archives libraries : List String) :
    List String :=
  (match kind with
    | .input => config.options.classpath.namespaceName.getD "" :: archives.map contentDigest
    | .classpath => []) ++ "" :: libraries.map contentDigest

/-- The key of a hop that reads some texts. -/
def keyOf (config : Config) (kind : HopRole) (input : String)
    (archives libraries : List String) (source target : Nat) : ArtifactId :=
  { target := config.graph.name target
    source := config.graph.name source
    patchState := config.options.patchState
    input := contentDigest input
    mappings := config.tree.fingerprint
    classpath := partsDigest (config.classpathParts kind archives libraries)
    settings := config.options.fingerprint kind
    kind := kind }

end Config

namespace Remapper

variable {remapper : Remapper} {files : FileTree} {kind : HopRole} {input : String}
  {source target : Nat} {key : ArtifactId}

def config (remapper : Remapper) : Config :=
  ⟨remapper.graph, remapper.catalog.tree, remapper.options⟩

theorem classpathDigest_eq_ok_iff {digest : String} :
    remapper.classpathDigest files kind = .ok digest ↔ ∃ archives libraries,
      files.Reads (remapper.config.derivedFrom kind) archives ∧
      files.Reads remapper.options.classpath.libraries libraries ∧
      digest = partsDigest (remapper.config.classpathParts kind archives libraries) := by
  have taken : remapper.classpathDigest files kind = .ok digest ↔ ∃ derived shared,
      (remapper.config.derivedFrom kind).mapM (fileDigest files) = .ok derived ∧
      remapper.options.classpath.libraries.mapM (fileDigest files) = .ok shared ∧
      digest = partsDigest ((match kind with
        | .input => remapper.options.classpath.namespaceName.getD "" :: derived
        | .classpath => []) ++ "" :: shared) := by
    unfold classpathDigest
    dsimp only
    cases kind with
    | input =>
        dsimp only [Config.derivedFrom, config]
        cases remapper.options.classpath.archives.mapM (fileDigest files) <;>
          cases remapper.options.classpath.libraries.mapM (fileDigest files) <;>
          simp [bind, Except.bind, eq_comm]
    | classpath =>
        have none : (remapper.config.derivedFrom .classpath).mapM (fileDigest files) =
            .ok [] := rfl
        rw [none]
        cases remapper.options.classpath.libraries.mapM (fileDigest files) <;>
          simp [bind, Except.bind, eq_comm]
  rw [taken]
  constructor
  · rintro ⟨derived, shared, first, second, rfl⟩
    obtain ⟨archives, derives, rfl⟩ := mapM_fileDigest_eq_ok_iff.mp first
    obtain ⟨libraries, shares, rfl⟩ := mapM_fileDigest_eq_ok_iff.mp second
    exact ⟨archives, libraries, derives, shares, rfl⟩
  · rintro ⟨archives, libraries, derives, shares, rfl⟩
    exact ⟨_, _, mapM_fileDigest_eq_ok_iff.mpr ⟨archives, derives, rfl⟩,
      mapM_fileDigest_eq_ok_iff.mpr ⟨libraries, shares, rfl⟩, rfl⟩

/-- A hop has a key if it can read everything, and the key is made of what it reads. -/
theorem keyOf_eq_ok_iff : remapper.keyOf files kind input source target = .ok key ↔
    ∃ text archives libraries, files.read input = .ok text ∧
      files.Reads (remapper.config.derivedFrom kind) archives ∧
      files.Reads remapper.options.classpath.libraries libraries ∧
      key = remapper.config.keyOf kind text archives libraries source target := by
  unfold keyOf
  constructor
  · intro done
    cases first : fileDigest files input with
    | error fault => rw [first] at done; cases done
    | ok digest =>
        rw [first] at done
        obtain ⟨text, held, rfl⟩ := fileDigest_eq_ok_iff.mp first
        cases second : remapper.classpathDigest files kind with
        | error fault => rw [second] at done; cases done
        | ok digest =>
            rw [second] at done
            obtain ⟨archives, libraries, derived, shared, rfl⟩ :=
              classpathDigest_eq_ok_iff.mp second
            cases done
            exact ⟨text, archives, libraries, held, derived, shared, rfl⟩
  · rintro ⟨text, archives, libraries, held, derived, shared, rfl⟩
    rw [fileDigest_eq_ok_iff.mpr ⟨text, held, rfl⟩,
      classpathDigest_eq_ok_iff.mpr ⟨archives, libraries, derived, shared, rfl⟩]
    rfl

theorem kind_of_keyOf (keyed : remapper.keyOf files kind input source target = .ok key) :
    key.kind = kind := by
  obtain ⟨text, archives, libraries, -, -, -, rfl⟩ := keyOf_eq_ok_iff.mp keyed
  rfl

/-- Under the same configuration a hop that can read the same texts has the same key. -/
theorem keyOf_of_reads {again : Remapper} {later : FileTree}
    (same : again.config = remapper.config)
    (reads : ∀ path ∈ input :: (remapper.config.derivedFrom kind ++
      remapper.options.classpath.libraries), ∀ text,
        files.read path = .ok text → later.read path = .ok text)
    (keyed : remapper.keyOf files kind input source target = .ok key) :
    again.keyOf later kind input source target = .ok key := by
  obtain ⟨text, archives, libraries, held, derives, shares, rfl⟩ := keyOf_eq_ok_iff.mp keyed
  have options : again.options = remapper.options := congrArg Config.options same
  refine keyOf_eq_ok_iff.mpr ⟨text, archives, libraries, reads input (by simp) text held,
    ?_, ?_, by rw [same]⟩
  · rw [same]
    exact derives.imp fun path member => reads path (by simp [member])
  · rw [options]
    exact shares.imp fun path member => reads path (by simp [member])

end Remapper

end ArchiveRemap
