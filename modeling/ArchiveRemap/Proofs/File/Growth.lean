import ArchiveRemap.Proofs.File.Place
import Mathlib.Data.List.Nodup
import Mathlib.Data.List.Perm.Subperm

/-!
How trees grow. Making directories and staging files only ever fill places where there was
nothing, so what a path leads to and what could be read there stay as they were.
-/

namespace ArchiveRemap.FileTree

variable {tree middle after : FileTree} {place : Place} {path content : String}

/-- A later tree in which all that was there is still there. -/
structure Keeps (tree after : FileTree) : Prop where
  here : after.here = tree.here
  directories : ∀ place, tree.isDirectory place = true → after.isDirectory place = true
  files : ∀ place content, tree.file? place = some content →
    tree.isDirectory place = false →
      after.file? place = some content ∧ after.isDirectory place = false

namespace Keeps

theorem refl (tree : FileTree) : Keeps tree tree :=
  ⟨rfl, fun _ directory => directory, fun _ _ found plain => ⟨found, plain⟩⟩

theorem trans (first : Keeps tree middle) (second : Keeps middle after) : Keeps tree after := by
  constructor
  case here => exact second.here.trans first.here
  case directories =>
    intro place directory
    exact second.directories place (first.directories place directory)
  case files =>
    intro place content found plain
    have ⟨stays, bare⟩ := first.files place content found plain
    exact second.files place content stays bare

theorem placeOf (keeps : Keeps tree after) (path : String) :
    after.placeOf path = tree.placeOf path :=
  placeOf_of_here keeps.here path

theorem locate (keeps : Keeps tree after) (found : tree.locate path = .ok place) :
    after.locate path = .ok place :=
  locate_of_grown keeps.here keeps.directories found

end Keeps

/-! Reading. -/

theorem read_eq_ok_iff :
    tree.read path = .ok content ↔ ∃ place, tree.locate path = .ok place ∧
      tree.isDirectory place = false ∧ tree.file? place = some content := by
  unfold read
  cases located : tree.locate path with
  | error fault => simp [bind, Except.bind]
  | ok place =>
      cases directory : tree.isDirectory place with
      | true => simp [bind, Except.bind, directory]
      | false =>
          cases held : tree.file? place with
          | none => simp [bind, Except.bind, directory, held]
          | some content => simp [bind, Except.bind, directory, held]

theorem Keeps.read (keeps : Keeps tree after) (found : tree.read path = .ok content) :
    after.read path = .ok content := by
  obtain ⟨place, located, plain, held⟩ := read_eq_ok_iff.mp found
  have ⟨stays, bare⟩ := keeps.files place content held plain
  exact read_eq_ok_iff.mpr ⟨place, keeps.locate located, bare, stays⟩

theorem isFileAt_iff : tree.isFileAt path = true ↔ ∃ content, tree.read path = .ok content := by
  unfold isFileAt
  cases tree.read path with
  | error fault => simp [Except.isOk, Except.toBool]
  | ok content => simp [Except.isOk, Except.toBool]

theorem locate_putFile {target : Place} :
    (tree.putFile target content).locate path = .ok place ↔ tree.locate path = .ok place := by
  have back : ∀ place, (tree.putFile target content).isDirectory place = true →
      tree.isDirectory place = true := fun _ directory => directory
  have forth : ∀ place, tree.isDirectory place = true →
      (tree.putFile target content).isDirectory place = true := fun _ directory => directory
  have same : tree.here = (tree.putFile target content).here := rfl
  exact ⟨fun located => locate_of_grown same back located,
    fun located => locate_of_grown same.symm forth located⟩

theorem read_putFile_of_ne {text : String} (found : tree.read path = .ok content)
    (apart : tree.placeOf path ≠ place) :
    (tree.putFile place text).read path = .ok content := by
  obtain ⟨there, located, plain, held⟩ := read_eq_ok_iff.mp found
  have other : place ≠ there := by
    rintro rfl
    exact apart (eq_placeOf_of_locate located).symm
  refine read_eq_ok_iff.mpr ⟨there, ?_, plain, ?_⟩
  · exact locate_putFile.mpr located
  · rw [file?_putFile, if_neg other, held]

theorem read_putFile (located : tree.locate path = .ok place)
    (plain : tree.isDirectory place = false) :
    (tree.putFile place content).read path = .ok content := by
  refine read_eq_ok_iff.mpr ⟨place, locate_putFile.mpr located, plain, ?_⟩
  rw [file?_putFile, if_pos rfl]

theorem read_of_write (written : tree.write path content = .ok after) :
    after.read path = .ok content := by
  unfold write at written
  cases located : tree.locate path with
  | error fault =>
      rw [located] at written
      cases written
  | ok place =>
      rw [located] at written
      change (if tree.isDirectory place then _ else _) = _ at written
      split at written
      · cases written
      · rename_i plain
        cases written
        exact read_putFile located (by simpa using plain)

theorem keeps_putFile_of_new (new : tree.file? place = none) :
    Keeps tree (tree.putFile place content) := by
  constructor
  case here => rfl
  case directories => exact fun _ directory => directory
  case files =>
    intro other text held plain
    have apart : place ≠ other := by
      rintro rfl
      rw [new] at held
      cases held
    exact ⟨by rw [file?_putFile, if_neg apart, held], plain⟩

/-! Making directories. -/

theorem keeps_of_makeDirectory (done : tree.makeDirectory path = .ok after) :
    Keeps tree after := by
  unfold makeDirectory at done
  cases located : tree.locate (bare path) with
  | error fault => rw [located] at done; cases done
  | ok place =>
      rw [located] at done
      change (if tree.isFree place then _ else _) = _ at done
      split at done
      · rename_i free
        cases done
        simp only [isFree, Bool.and_eq_true, Option.isNone_iff_eq_none] at free
        refine ⟨rfl, fun other directory => ?_, fun other text held plain => ⟨held, ?_⟩⟩
        · simp only [isDirectory, Bool.or_eq_true, decide_eq_true_eq] at directory ⊢
          exact directory.imp_right (List.mem_append_left _)
        · -- What is made is where there was no file, so no file turns into a directory.
          have apart : other ≠ place := by
            rintro rfl
            rw [free.1] at held
            cases held
          simpa [isDirectory, apart] using plain
      · cases done

theorem keeps_of_requireDirectory (done : tree.requireDirectory path = .ok after) :
    Keeps tree after := by
  unfold requireDirectory at done
  split at done
  · rename_i made found
    cases done
    exact keeps_of_makeDirectory found
  · split at done
    · cases done
      exact .refl tree
    · cases done

theorem keeps_makeChain (tree : FileTree) (paths : List String) :
    Keeps tree (tree.makeChain paths).2 := by
  induction paths generalizing tree with
  | nil => exact .refl tree
  | cons path parents ih =>
      unfold makeChain
      split
      · exact .refl tree
      · split
        · rename_i made found
          exact keeps_of_requireDirectory found
        · have above := ih tree
          split
          · rename_i fault after broken
            rwa [broken] at above
          · rename_i after chained
            rw [chained] at above
            split
            · rename_i made found
              exact above.trans (keeps_of_requireDirectory found)
            · exact above
        · exact .refl tree

theorem keeps_makeDirectories (tree : FileTree) (path : String) :
    Keeps tree (tree.makeDirectories path).2 :=
  keeps_makeChain tree (PathText.ancestors path)

theorem file?_makeDirectories (tree : FileTree) (path : String) (place : Place) :
    (tree.makeDirectories path).2.file? place = tree.file? place := by
  rw [file?, file?, makeDirectories, files_makeChain]

theorem isDirectoryAt_iff : tree.isDirectoryAt path = true ↔
    ∃ place, tree.locate path = .ok place ∧ tree.isDirectory place = true := by
  unfold isDirectoryAt
  cases tree.locate path <;> simp

/-- A path inside a directory leads somewhere only where the directory is. -/
theorem isDirectoryAt_of_locate_join {base : String} (named : base ≠ "")
    (relative : PathText.isAbsolute path = false)
    (located : tree.locate (PathText.join base path) = .ok place) :
    tree.isDirectoryAt base = true := by
  obtain ⟨absolute, front, whole, own⟩ := PathText.parts_join named relative
  obtain ⟨valid, -, followed⟩ := locate_eq_ok_iff.mp located
  rw [whole, absolute, List.foldlM_append] at followed
  cases reached : front.foldlM tree.step (if PathText.isAbsolute base then [] else tree.here) with
  | error fault => rw [reached] at followed; cases followed
  | ok parent =>
      rw [reached] at followed
      -- The first part of the path itself is followed from the directory.
      have directory : tree.isDirectory parent = true := by
        obtain ⟨part, rest, first⟩ := List.exists_cons_of_ne_nil (PathText.parts_ne_nil path)
        rw [first] at followed
        change (part :: rest).foldlM tree.step parent = .ok place at followed
        rw [List.foldlM_cons] at followed
        cases step : tree.step parent part with
        | error fault => rw [step] at followed; cases followed
        | ok next => exact (step_eq_ok step).2.1
      have idle : tree.step parent "" = .ok parent := by simp [step, directory]
      refine isDirectoryAt_iff.mpr ⟨parent, locate_eq_ok_iff.mpr ⟨?_, named, ?_⟩, directory⟩
      · exact fun member => valid (PathText.mem_join named relative member)
      · rcases own with same | same
        · rw [same, reached]
        · rw [same, List.foldlM_append, reached]
          change [""].foldlM tree.step parent = _
          rw [List.foldlM_cons, idle]
          rfl

theorem Keeps.isDirectoryAt (keeps : Keeps tree after)
    (directory : tree.isDirectoryAt path = true) : after.isDirectoryAt path = true := by
  obtain ⟨place, located, there⟩ := isDirectoryAt_iff.mp directory
  exact isDirectoryAt_iff.mpr ⟨place, keeps.locate located, keeps.directories place there⟩

theorem makeDirectories_of_there (there : tree.isDirectoryAt path = true) :
    tree.makeDirectories path = (.ok (), tree) := by
  obtain ⟨place, located, directory⟩ := isDirectoryAt_iff.mp there
  have named : path ≠ "" := (locate_eq_ok_iff.mp located).2.1
  -- Making the last directory of the chain is refused, which is fine since it is there.
  have kept : tree.requireDirectory path = .ok tree := by
    have refused : ∃ fault, tree.makeDirectory path = .error fault := by
      unfold makeDirectory
      cases again : tree.locate (bare path) with
      | error fault => exact ⟨fault, rfl⟩
      | ok other =>
          have same : other = place := by
            rw [eq_placeOf_of_locate again, eq_placeOf_of_locate located,
              placeOf_bare (locate_eq_ok_iff.mp again).2.1]
          refine ⟨.alreadyExists, ?_⟩
          simp [bind, Except.bind, isFree, same, directory]
    obtain ⟨fault, refused⟩ := refused
    simp [requireDirectory, refused, there]
  have first : ∃ parents, PathText.ancestors path = path :: parents := by
    unfold PathText.ancestors
    cases path.length <;> exact ⟨_, rfl⟩
  obtain ⟨parents, chain⟩ := first
  rw [makeDirectories, chain, makeChain, if_neg named, kept]

/-! Staging. -/

theorem stagedName_injective {stem : String} {left right : Nat}
    (same : stagedName stem left = stagedName stem right) : left = right := by
  have chars := congrArg String.toList same
  simp only [stagedName, String.toList_append] at chars
  have digits := List.append_cancel_left (List.append_cancel_right chars)
  have back := congrArg (fun digits => Nat.ofDigitChars 10 digits 0) digits
  simpa [Nat.toString_eq_ofList_toDigits] using back

/-- There are more numbers to choose from than there are places that could be taken. -/
theorem exists_free_number (tree : FileTree) (directory : Place) (stem : String) :
    ∃ number ∈ List.range (tree.files.length + tree.directories.length + 1),
      tree.isFree (directory ++ [stagedName stem number]) = true := by
  by_contra none
  -- Otherwise every candidate is a file or a directory, and there are more candidates.
  have taken : (List.range (tree.files.length + tree.directories.length + 1)).map
      (fun number => directory ++ [stagedName stem number]) ⊆
        tree.files.keys ++ tree.directories := by
    intro place member
    obtain ⟨number, inside, rfl⟩ := List.mem_map.mp member
    have busy : ¬ tree.isFree (directory ++ [stagedName stem number]) = true :=
      fun free => none ⟨number, inside, free⟩
    simp only [isFree, isDirectory, Bool.and_eq_true, Option.isNone_iff_eq_none,
      Bool.not_eq_true', Bool.or_eq_false_iff, decide_eq_false_iff_not, List.append_eq_nil_iff,
      List.cons_ne_self, and_false, not_false_eq_true, true_and, not_and, not_not] at busy
    rw [List.mem_append]
    by_cases held : tree.file? (directory ++ [stagedName stem number]) = Option.none
    · exact .inr (by simpa using busy held)
    · left
      by_contra absent
      exact held (Keyed.get?_eq_none_iff.mpr absent)
  have distinct : ((List.range (tree.files.length + tree.directories.length + 1)).map
      (fun number => directory ++ [stagedName stem number])).Nodup := by
    refine List.nodup_range.map_on ?_
    intro left _ right _ same
    exact stagedName_injective (List.singleton_injective (List.append_cancel_left same))
  have bound := (distinct.subperm taken).length_le
  simp only [List.length_map, List.length_range, List.length_append, Keyed.keys] at bound
  omega

theorem isFree_freeNumber (tree : FileTree) (directory : Place) (stem : String) :
    tree.isFree (directory ++ [stagedName stem (tree.freeNumber directory stem)]) = true := by
  unfold freeNumber
  cases found : (List.range (tree.files.length + tree.directories.length + 1)).find?
      fun number => tree.isFree (directory ++ [stagedName stem number]) with
  | some number => exact List.find?_some (p := fun number =>
      tree.isFree (directory ++ [stagedName stem number])) found
  | none =>
      obtain ⟨number, inside, free⟩ := exists_free_number tree directory stem
      exact absurd free (List.find?_eq_none.mp found number inside)

theorem stage_eq_ok_iff {stem : String} {staged : Place} :
    tree.stage path stem = .ok (staged, after) ↔ ∃ parent, tree.locate path = .ok parent ∧
      tree.isDirectory parent = true ∧
      staged = parent ++ [stagedName stem (tree.freeNumber parent stem)] ∧
      after = tree.putFile staged "" := by
  unfold stage
  cases tree.locate path with
  | error fault => simp [bind, Except.bind]
  | ok parent =>
      cases directory : tree.isDirectory parent with
      | false => simp [bind, Except.bind, directory]
      | true =>
          simp only [bind, Except.bind, directory, Bool.not_true, Bool.false_eq_true, if_false,
            Except.ok.injEq, Prod.mk.injEq, exists_eq_left', true_and]
          constructor
          · rintro ⟨rfl, rfl⟩
            exact ⟨rfl, rfl⟩
          · rintro ⟨rfl, rfl⟩
            exact ⟨rfl, rfl⟩

theorem stage_eq_ok {stem : String} {staged : Place}
    (done : tree.stage path stem = .ok (staged, after)) :
    tree.file? staged = none ∧ after = tree.putFile staged "" := by
  obtain ⟨parent, -, -, rfl, rfl⟩ := stage_eq_ok_iff.mp done
  have free := isFree_freeNumber tree parent stem
  simp only [isFree, Bool.and_eq_true, Option.isNone_iff_eq_none] at free
  exact ⟨free.1, rfl⟩

/-- Dropping what was staged undoes the staging, whatever was written to it. -/
theorem dropFile_putFile_of_new (new : tree.file? place = none) (content : String) :
    (tree.putFile place content).dropFile place = tree := by
  have absent : place ∉ Keyed.keys tree.files := Keyed.get?_eq_none_iff.mp new
  simp only [putFile, dropFile, Keyed.erase_put_of_fresh place content tree.files absent]

theorem putFile_putFile (tree : FileTree) (place : Place) (first second : String) :
    (tree.putFile place first).putFile place second = tree.putFile place second := by
  simp only [putFile, Keyed.put_put]

theorem bare_of_no_slash (plain : Text.endsWith ['/'] path.toList = false) :
    bare path = path := by
  cases last : path.toList.getLast? with
  | none =>
      rw [List.getLast?_eq_none_iff] at last
      rw [bare, last]
      exact String.toList_inj.mp (by simp [Text.trimEnd, last])
  | some c =>
      refine bare_of_last last ?_
      rintro rfl
      obtain ⟨front, same⟩ := List.getLast?_eq_some_iff.mp last
      rw [same] at plain
      simp [Text.endsWith, Text.dropTail?, Text.dropHead?] at plain

theorem commit_eq_ok_iff {staged : Place} :
    tree.commit staged path = .ok after ↔ ∃ place, tree.locate (bare path) = .ok place ∧
      endsInName path = true ∧ Text.endsWith ['/'] path.toList = false ∧
      tree.isDirectory place = false ∧
      after = (tree.dropFile staged).putFile place ((tree.file? staged).getD "") := by
  unfold commit
  cases tree.locate (bare path) with
  | error fault => simp [bind, Except.bind]
  | ok place =>
      simp only [bind, Except.bind, Bool.not_eq_true', Except.ok.injEq, exists_eq_left']
      cases endsInName path with
      | false => simp
      | true =>
          cases Text.endsWith ['/'] path.toList with
          | true => simp
          | false =>
              cases directory : tree.isDirectory place with
              | true => simp
              | false => simp [eq_comm]

/-- A staged file that was written and then given a name leaves nothing else behind. -/
theorem commit_putFile_eq_ok_iff {staged : Place} (new : tree.file? staged = none) :
    (tree.putFile staged content).commit staged path = .ok after ↔
      ∃ place, tree.locate path = .ok place ∧ endsInName path = true ∧
        Text.endsWith ['/'] path.toList = false ∧ tree.isDirectory place = false ∧
        after = tree.putFile place content := by
  have held : (tree.putFile staged content).file? staged = some content := by
    rw [file?_putFile, if_pos rfl]
  have plain (place : Place) :
      (tree.putFile staged content).isDirectory place = tree.isDirectory place := rfl
  simp only [commit_eq_ok_iff, held, dropFile_putFile_of_new new, locate_putFile, plain,
    Option.getD_some]
  constructor
  · rintro ⟨place, located, named, slash, kept⟩
    exact ⟨place, bare_of_no_slash slash ▸ located, named, slash, kept⟩
  · rintro ⟨place, located, named, slash, kept⟩
    exact ⟨place, (bare_of_no_slash slash).symm ▸ located, named, slash, kept⟩

end ArchiveRemap.FileTree
