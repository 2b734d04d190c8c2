import ArchiveRemap.Proofs.File.Growth
import ArchiveRemap.Store.Publish

/-!
Publishing and copying. Either ends with one file more or replaced, or leaves every file as it
was. An artifact that a look-up did not find goes where there was no file, so publishing
replaces nothing.
-/

namespace ArchiveRemap

variable {α : Type} {store : Store} {key : ArtifactId} {files seen after : FileTree}

namespace Store

/-- The directory of a store is there, or none of its artifacts is. -/
def Ready (store : Store) (files : FileTree) : Prop :=
  files.isDirectoryAt store.root = true ∨
    ∀ key, files.file? (files.placeOf (store.pathOf key)) = none

theorem lookup?_eq_some_iff {path : String} : store.lookup? files key = some path ↔
    path = store.pathOf key ∧ ∃ content, files.read (store.pathOf key) = .ok content := by
  unfold lookup?
  rw [← FileTree.isFileAt_iff]
  split
  · rename_i there
    simp [there, eq_comm]
  · rename_i absent
    simp [absent]

theorem lookup?_of_read {content : String} (held : files.read (store.pathOf key) = .ok content) :
    store.lookup? files key = some (store.pathOf key) :=
  lookup?_eq_some_iff.mpr ⟨rfl, content, held⟩

theorem lookup?_eq_none_iff : store.lookup? files key = none ↔
    ∀ content, files.read (store.pathOf key) ≠ .ok content := by
  constructor
  · intro absent content held
    rw [lookup?_of_read held] at absent
    cases absent
  · intro unread
    cases found : store.lookup? files key with
    | none => rfl
    | some path =>
        obtain ⟨-, content, held⟩ := lookup?_eq_some_iff.mp found
        exact absurd held (unread content)

theorem stage_eq_ok {staged : Place} (done : store.stage files = (.ok staged, after)) :
    (files.makeDirectories store.root).2.isDirectoryAt store.root = true ∧
      (files.makeDirectories store.root).2.file? staged = none ∧
      after = (files.makeDirectories store.root).2.putFile staged "" := by
  unfold stage at done
  split at done
  · cases done
  · rename_i made chained
    rw [chained]
    split at done
    · cases done
    · rename_i place tree found
      cases done
      obtain ⟨parent, located, directory, -⟩ := FileTree.stage_eq_ok_iff.mp found
      exact ⟨FileTree.isDirectoryAt_iff.mpr ⟨parent, located, directory⟩,
        FileTree.stage_eq_ok found⟩

theorem stage_eq_error {fault : ArchiveError} (done : store.stage files = (.error fault, after)) :
    after = (files.makeDirectories store.root).2 := by
  unfold stage at done
  split at done
  · rename_i chained
    cases done
    rw [chained]
  · rename_i chained
    rw [chained]
    split at done
    · cases done
      rfl
    · cases done

/-- The two ways in which publishing ends. The producer sees what was there, and besides
that at most new directories and the staged file. -/
theorem publish_cases {produce : FileTree → Except ArchiveError String × α}
    {result : Except ArchiveError String} {told : Option α}
    (run : store.publish key produce files = (result, told, after)) :
    (∃ fault, result = .error fault ∧ after = (files.makeDirectories store.root).2) ∨
      ∃ seen content place, files.Keeps seen ∧ (produce seen).1 = .ok content ∧
        told = some (produce seen).2 ∧ result = .ok (store.pathOf key) ∧
        (files.makeDirectories store.root).2.isDirectoryAt store.root = true ∧
        (files.makeDirectories store.root).2.locate (store.pathOf key) = .ok place ∧
        (files.makeDirectories store.root).2.isDirectory place = false ∧
        after = (files.makeDirectories store.root).2.putFile place content := by
  unfold publish at run
  split at run
  · rename_i fault made broken
    cases run
    exact .inl ⟨fault, rfl, stage_eq_error broken⟩
  · rename_i staged tree done
    obtain ⟨root, new, rfl⟩ := stage_eq_ok done
    have grows : FileTree.Keeps (files.makeDirectories store.root).2
        ((files.makeDirectories store.root).2.putFile staged "") :=
      FileTree.keeps_putFile_of_new new
    have keeps := (FileTree.keeps_makeDirectories files store.root).trans grows
    dsimp only at run
    split at run
    · -- Both when nothing was produced and when it could not be named, the stage goes.
      rename_i fault failed
      cases run
      exact .inl ⟨fault, rfl, FileTree.dropFile_putFile_of_new new ""⟩
    · rename_i content produced
      rw [FileTree.putFile_putFile] at run
      split at run
      · rename_i cause refused
        cases run
        exact .inl ⟨_, rfl, FileTree.dropFile_putFile_of_new new content⟩
      · rename_i tree named
        obtain ⟨place, located, -, -, plain, rfl⟩ :=
          (FileTree.commit_putFile_eq_ok_iff new).mp named
        cases run
        exact .inr ⟨_, content, place, keeps, produced, rfl, rfl, root, located, plain, rfl⟩

theorem Ready.vacant {place : Place} (ready : store.Ready files)
    (absent : store.lookup? files key = none)
    (located : (files.makeDirectories store.root).2.locate (store.pathOf key) = .ok place)
    (plain : (files.makeDirectories store.root).2.isDirectory place = false) :
    files.file? place = none := by
  rcases ready with root | empty
  · -- Nothing is made, so the look-up came to the same place.
    rw [FileTree.makeDirectories_of_there root] at located plain
    cases held : files.file? place with
    | none => rfl
    | some content =>
        have found : files.read (store.pathOf key) = .ok content :=
          FileTree.read_eq_ok_iff.mpr ⟨place, located, plain, held⟩
        exact absurd found (lookup?_eq_none_iff.mp absent content)
  · rw [FileTree.eq_placeOf_of_locate located,
      (FileTree.keeps_makeDirectories files store.root).placeOf]
    exact empty key

section Publish

variable {produce : FileTree → Except ArchiveError String × α}
  {result : Except ArchiveError String} {told : Option α}

theorem Ready.makeDirectories (ready : store.Ready files) :
    store.Ready (files.makeDirectories store.root).2 := by
  have keeps := FileTree.keeps_makeDirectories files store.root
  rcases ready with root | empty
  · exact .inl (keeps.isDirectoryAt root)
  · right
    intro key
    rw [FileTree.file?_makeDirectories, keeps.placeOf]
    exact empty key

theorem keeps_publish (ready : store.Ready files) (absent : store.lookup? files key = none)
    (run : store.publish key produce files = (result, told, after)) :
    files.Keeps after ∧ store.Ready after := by
  have keeps := FileTree.keeps_makeDirectories files store.root
  rcases publish_cases run with ⟨fault, -, rfl⟩ | ⟨seen, content, place, -, -, -, -, root,
    located, plain, rfl⟩
  · exact ⟨keeps, ready.makeDirectories⟩
  · have new : (files.makeDirectories store.root).2.file? place = none := by
      rw [FileTree.file?_makeDirectories]
      exact ready.vacant absent located plain
    have grows : FileTree.Keeps (files.makeDirectories store.root).2
        ((files.makeDirectories store.root).2.putFile place content) :=
      FileTree.keeps_putFile_of_new new
    exact ⟨keeps.trans grows, .inl (grows.isDirectoryAt root)⟩

theorem here_publish (run : store.publish key produce files = (result, told, after)) :
    after.here = files.here := by
  have made := (FileTree.keeps_makeDirectories files store.root).here
  rcases publish_cases run with ⟨-, -, rfl⟩ | ⟨-, -, -, -, -, -, -, -, -, -, rfl⟩
  · exact made
  · exact made

/-- Nothing but the artifact changes, and that only if it was published. -/
theorem file?_publish {place : Place}
    (run : store.publish key produce files = (result, told, after))
    (other : (∃ fault, result = .error fault) ∨ place ≠ files.placeOf (store.pathOf key)) :
    after.file? place = files.file? place := by
  rcases publish_cases run with ⟨fault, -, rfl⟩ | ⟨seen, content, there, -, -, -, rfl, -,
    located, -, rfl⟩
  · exact FileTree.file?_makeDirectories files store.root place
  · have apart : there ≠ place := by
      rcases other with ⟨fault, impossible⟩ | other
      · cases impossible
      · rw [FileTree.eq_placeOf_of_locate located,
          (FileTree.keeps_makeDirectories files store.root).placeOf]
        exact other.symm
    rw [FileTree.file?_putFile, if_neg apart, FileTree.file?_makeDirectories]

theorem read_publish {path : String}
    (run : store.publish key produce files = (.ok path, told, after)) :
    path = store.pathOf key ∧ ∃ seen content, files.Keeps seen ∧
      (produce seen).1 = .ok content ∧ told = some (produce seen).2 ∧
      after.read (store.pathOf key) = .ok content := by
  rcases publish_cases run with ⟨fault, impossible, -⟩ | ⟨seen, content, place, keeps,
    produced, passed, same, -, located, plain, rfl⟩
  · cases impossible
  · cases same
    exact ⟨rfl, seen, content, keeps, produced, passed, FileTree.read_putFile located plain⟩

end Publish

end Store

/-! Copying. -/

section Copy

variable {source target content : String}

theorem copyFile_cases {result : Except ArchiveError Unit}
    (run : copyFile files source target = (result, after)) :
    (∃ fault, result = .error fault ∧ after = files) ∨
      ∃ seen content place, files.Keeps seen ∧ seen.read source = .ok content ∧
        files.locate target = .ok place ∧ result = .ok () ∧
        after = files.putFile place content := by
  unfold copyFile at run
  dsimp only at run
  split at run
  · cases run
    exact .inl ⟨_, rfl, rfl⟩
  · rename_i staged tree done
    obtain ⟨new, rfl⟩ := FileTree.stage_eq_ok done
    split at run
    · cases run
      exact .inl ⟨_, rfl, FileTree.dropFile_putFile_of_new new ""⟩
    · rename_i content held
      rw [FileTree.putFile_putFile] at run
      split at run
      · cases run
        exact .inl ⟨_, rfl, FileTree.dropFile_putFile_of_new new content⟩
      · rename_i tree named
        obtain ⟨place, located, -, -, -, rfl⟩ :=
          (FileTree.commit_putFile_eq_ok_iff new).mp named
        cases run
        exact .inr ⟨_, content, place, FileTree.keeps_putFile_of_new new, held, located, rfl,
          rfl⟩

/-- When a file can be copied, and what is there then. -/
theorem copyFile_eq_ok_iff (held : files.read source = .ok content) :
    copyFile files source target = (.ok (), after) ↔
      files.isDirectoryAt (PathText.directory target) = true ∧
      ∃ place, files.locate target = .ok place ∧ FileTree.endsInName target = true ∧
        Text.endsWith ['/'] target.toList = false ∧ files.isDirectory place = false ∧
        after = files.putFile place content := by
  unfold copyFile
  dsimp only
  cases staging : files.stage (PathText.directory target) ".copy-" with
  | error cause =>
      simp only [Prod.mk.injEq, reduceCtorEq, false_and, false_iff, not_and]
      intro there
      obtain ⟨parent, located, directory⟩ := FileTree.isDirectoryAt_iff.mp there
      have done : ∃ stage, files.stage (PathText.directory target) ".copy-" = .ok stage :=
        ⟨_, FileTree.stage_eq_ok_iff.mpr ⟨parent, located, directory, rfl, rfl⟩⟩
      rw [staging] at done
      cases done.choose_spec
  | ok stage =>
      obtain ⟨staged, tree⟩ := stage
      obtain ⟨parent, located, directory, -, -⟩ := FileTree.stage_eq_ok_iff.mp staging
      have there := FileTree.isDirectoryAt_iff.mpr ⟨parent, located, directory⟩
      obtain ⟨new, rfl⟩ := FileTree.stage_eq_ok staging
      have again : (files.putFile staged "").read source = .ok content :=
        (FileTree.keeps_putFile_of_new new).read held
      simp only [again, FileTree.putFile_putFile, there, true_and]
      rw [← FileTree.commit_putFile_eq_ok_iff new]
      cases (files.putFile staged content).commit staged target <;> simp

/-- A copy that was made can be made again, and changes nothing then. -/
theorem copyFile_again (held : files.read source = .ok content)
    (apart : files.placeOf source ≠ files.placeOf target)
    (run : copyFile files source target = (.ok (), after)) :
    copyFile after source target = (.ok (), after) := by
  obtain ⟨there, place, located, named, slash, plain, rfl⟩ := (copyFile_eq_ok_iff held).mp run
  have apart : files.placeOf source ≠ place :=
    fun same => apart (same.trans (FileTree.eq_placeOf_of_locate located))
  obtain ⟨parent, found, directory⟩ := FileTree.isDirectoryAt_iff.mp there
  refine (copyFile_eq_ok_iff (FileTree.read_putFile_of_ne held apart)).mpr
    ⟨FileTree.isDirectoryAt_iff.mpr ⟨parent, FileTree.locate_putFile.mpr found, directory⟩,
      place, FileTree.locate_putFile.mpr located, named, slash, plain, ?_⟩
  exact (FileTree.putFile_putFile files place content content).symm

end Copy

end ArchiveRemap
