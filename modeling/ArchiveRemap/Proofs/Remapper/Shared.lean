import ArchiveRemap.Proofs.Remapper.Alike
import ArchiveRemap.Proofs.Remapper.Sound

/-!
Remappers that share a store. Whatever they do, an artifact that is found holds what the call
that made it has written, so it is right for every call that is alike and writes the same. A key
leaves out the graph, the mapping data but for its digest, and whether the namespace of the
classpath is given; where these do not differ, what is found is right.
-/

namespace ArchiveRemap

/-- What others may do with files when they leave the directory of a store alone. -/
structure Store.Untouched (store : Store) (files later : FileTree) : Prop where
  here : later.here = files.here
  root : files.isDirectoryAt store.root = true → later.isDirectoryAt store.root = true
  reads : ∀ key content, files.read (store.pathOf key) = .ok content →
    later.read (store.pathOf key) = .ok content
  same : ∀ key, later.file? (files.placeOf (store.pathOf key)) =
    files.file? (files.placeOf (store.pathOf key))

/-- The remappers that share a store, the files, and the log of all answers, after any number of
remappers have been opened, reconfigured and run, while only remaps write to the store. -/
inductive Reached (store : Store) : List Remapper → FileTree → List Answer → Prop where
  | start (files : FileTree)
      (empty : ∀ key, files.file? (files.placeOf (store.pathOf key)) = none) :
      Reached store [] files []
  | opened {remappers : List Remapper} {files : FileTree} {log : List Answer}
      (before : Reached store remappers files log) (graph : Graph) (tree : Tiny.Tree)
      (options : HopOptions) (shared : options.store = store) :
      Reached store (remappers ++ [.ofCatalog (.ofTree graph tree) options]) files log
  | reconfigured {remappers : List Remapper} {files : FileTree} {log : List Answer}
      (before : Reached store remappers files log) {number : Nat} {remapper : Remapper}
      (chosen : remappers[number]? = some remapper) (graph : Graph) (tree : Tiny.Tree) :
      Reached store (remappers.set number (remapper.withCatalog (.ofTree graph tree))) files log
  | elsewhere {remappers : List Remapper} {files later : FileTree} {log : List Answer}
      (before : Reached store remappers files log) (untouched : store.Untouched files later) :
      Reached store remappers later log
  | remapped {remappers : List Remapper} {world after : World} {log : List Answer}
      (before : Reached store remappers world.files log) {number : Nat}
      (chosen : remappers[number]? = some world.remapper) (request : Request)
      (input output : String)
      (outside : ∀ key, world.files.placeOf (store.pathOf key) ≠ world.files.placeOf output)
      {result : Except RequestError RemapResult}
      (ran : (Remapper.remap request input output).run world = (result, after)) :
      Reached store (remappers.set number after.remapper) after.files
        (log ++ (Traced.remap request input output).answers world)

theorem faithful_ofCatalog (graph : Graph) (tree : Tiny.Tree) (options : HopOptions) :
    (Remapper.ofCatalog (.ofTree graph tree) options).Faithful := by
  constructor
  · intro _ _ found
    cases found
  · intro _ _ _ found
    cases found

/-- After a remap the store holds what the log tells, with what the remap has told. -/
theorem kept_remap {store : Store} {world after : World} {log : List Answer}
    (kept : world.Kept log) (shared : world.remapper.options.store = store) {request : Request}
    {input output : String}
    (outside : ∀ key, world.files.placeOf (store.pathOf key) ≠ world.files.placeOf output)
    {result : Except RequestError RemapResult}
    (ran : (Remapper.remap request input output).run world = (result, after)) :
    after.remapper.options = world.remapper.options ∧
      after.Kept (log ++ (Traced.remap request input output).answers world) := by
  have apart (key : ArtifactId) : world.artifactPlace key ≠ world.files.placeOf output := by
    rw [World.artifactPlace, shared]
    exact outside key
  have later := Traced.tells_remap request input output apart log kept
  have config := Remapper.config_remap kept.ready request input output
  rw [Traced.run_remap, ran] at later
  rw [ran] at config
  exact ⟨congrArg Config.options config, later⟩

namespace Reached

variable {store : Store} {remappers : List Remapper} {files : FileTree} {log : List Answer}

theorem kept (reached : Reached store remappers files log) :
    (∀ remapper ∈ remappers, remapper.options.store = store ∧ remapper.Faithful) ∧
      store.Holds log files := by
  induction reached with
  | start files empty =>
      constructor
      · simp
      · refine ⟨.inr empty, by simp, ?_, .none⟩
        intro key content there
        rw [empty] at there
        cases there
  | opened before graph tree options shared ih =>
      constructor
      · simp only [List.forall_mem_append, List.forall_mem_singleton]
        exact ⟨ih.1, shared, faithful_ofCatalog graph tree options⟩
      · exact ih.2
  | @reconfigured remappers files log before number remapper chosen graph tree ih =>
      constructor
      · intro other member
        rcases List.mem_or_eq_of_mem_set member with old | rfl
        · exact ih.1 other old
        · exact ⟨(ih.1 remapper (List.mem_of_getElem? chosen)).1,
            faithful_ofCatalog graph tree remapper.options⟩
      · exact ih.2
  | @elsewhere remappers files later log before untouched ih =>
      -- What happens elsewhere leaves a root that is there, or a store without artifacts.
      have ready : store.Ready later := by
        rcases ih.2.ready with root | empty
        · exact .inl (untouched.root root)
        · right
          intro key
          rw [FileTree.placeOf_of_here untouched.here, untouched.same]
          exact empty key
      exact ⟨ih.1, ih.2.still untouched.here ready untouched.reads untouched.same⟩
  | @remapped remappers world after log before number chosen request input output outside result
      ran ih =>
      obtain ⟨shared, faithful⟩ := ih.1 world.remapper (List.mem_of_getElem? chosen)
      have kept : world.Kept log := ⟨faithful, shared.symm ▸ ih.2⟩
      -- The log grows by what the remap tells, the catalog and the routes by what it has found.
      obtain ⟨options, later⟩ := kept_remap kept shared outside ran
      have holds := later.holds
      rw [options, shared] at holds
      constructor
      · intro other member
        rcases List.mem_or_eq_of_mem_set member with old | rfl
        · exact ih.1 other old
        · exact ⟨options.symm ▸ shared, later.faithful⟩
      · exact holds

/-- Where nothing was found, every hop has written what it writes afresh. -/
theorem right_of_uncached (reached : Reached store remappers files log)
    (ran : ∀ answer ∈ log, answer.cached = false) : ∀ answer ∈ log, answer.Right :=
  reached.kept.2.explained.right fun _ _ answer among _ _ cached _ => by
    rw [ran answer among] at cached
    cases cached

section Sound

variable (reached : Reached store remappers files log)
  (fits : ∀ answer ∈ log, answer.call.Fits)
  (apart : ∀ left ∈ log, ∀ right ∈ log, left.call.Apart right.call)

include reached fits apart

/-- All answers are right if alike calls that were answered write the same. -/
theorem right_of_alike (same : ∀ left ∈ log, ∀ right ∈ log,
    HopCall.Alike left.call right.call → left.call.fresh? = right.call.fresh?) :
    ∀ answer ∈ log, answer.Right := by
  apply reached.kept.2.explained.right
  intro origin member answer among place content _ right
  -- What was found was left by a call with the same place, so by one that is alike.
  have alike := HopCall.alike_of_placeOf_eq (apart origin member answer among)
    (fits origin member) (fits answer among) place
  rw [Answer.Right, ← same origin member answer among alike, right, content]

/-- What is found is right if no two remappers differ in what their keys leave out. -/
theorem right_of_sameSetting (same : ∀ left ∈ log, ∀ right ∈ log,
    HopCall.Alike left.call right.call → HopCall.SameSetting left.call right.call) :
    ∀ answer ∈ log, answer.Right :=
  right_of_alike reached fits apart fun left member right among alike =>
    alike.fresh?_eq (same left member right among alike)

/-- What is found is right in all of a run exactly if alike calls of the run write the same. -/
theorem cached_right_iff :
    (∀ answer ∈ log, answer.cached = true → answer.Right) ↔
      ∀ left ∈ log, ∀ right ∈ log, HopCall.Alike left.call right.call →
        left.call.fresh? = right.call.fresh? := by
  constructor
  · intro cached left member right among alike
    have all := reached.kept.2.explained.right fun _ _ answer among _ _ told _ =>
      cached answer among told
    -- Alike calls have one artifact, which holds what either of them was answered.
    have first := reached.kept.2.stored left member
    have second := reached.kept.2.stored right among
    rw [alike.key_eq, second, Except.ok.injEq] at first
    rw [all left member, all right among, first]
  · intro same answer member _
    exact right_of_alike reached fits apart same answer member

end Sound

/-! A stale artifact. The namespaces `b` and `c` depend on others, `c` has no names of its own,
and the order of its dependencies tells whose names it borrows. -/

def borrowing (dependencies : List Nat) : Config :=
  { graph := ⟨[⟨"a", false, []⟩, ⟨"b", false, [0]⟩, ⟨"c", true, dependencies⟩]⟩
    tree := ⟨["a", "b", "c"], [("P", ⟨[some "P", some "Q", none], [], []⟩)]⟩
    options :=
      { store := ⟨"s"⟩
        patchState := none
        mixin := { Mixin.Options.standard with enabled := false }
        ignoreMismatch := false
        classpath := ⟨none, [], []⟩ } }

def borrowingText : String :=
  "\x7b\"entries\":\x7b\"P.class\":\x7b\"class\":\x7b\"name\":\"P\"\x7d\x7d\x7d\x7d"

def borrowingCall (dependencies : List Nat) : HopCall :=
  ⟨borrowing dependencies, .input, borrowingText, [], [], 0, 2⟩

def afterRemap (world : World) : World :=
  ((Remapper.remap (.direct 0 2) "i" "o").run world).2

/-- After a remap, with the dependencies of `c` the other way around. -/
def reordered (world : World) : World :=
  { remapper := (afterRemap world).remapper.withCatalog
      (.ofTree (borrowing [0, 1]).graph (borrowing [0, 1]).tree)
    files := (afterRemap world).files
    notices := [] }

/-- What is answered before and after. -/
def reorderedLog (world : World) : List Answer :=
  (Traced.remap (.direct 0 2) "i" "o").answers world ++
    (Traced.remap (.direct 0 2) "i" "o").answers (reordered world)

theorem reached_reorderedLog {world : World} {options : HopOptions} {graph : Graph}
    {tree : Tiny.Tree} (opened : world.remapper = .ofCatalog (.ofTree graph tree) options)
    (empty : ∀ key, world.files.file? (world.files.placeOf (options.store.pathOf key)) = none) :
    Reached options.store [(afterRemap (reordered world)).remapper]
      (afterRemap (reordered world)).files (reorderedLog world) := by
  have outside (files : FileTree) (key : ArtifactId) :
      files.placeOf (options.store.pathOf key) ≠ files.placeOf "o" := by
    have last : (files.placeOf "o").getLast? = some "o" := by
      change (files.here ++ ["o"]).getLast? = _
      simp
    exact Store.placeOf_pathOf_ne last (by decide) key
  have ran (world : World) : (Remapper.remap (.direct 0 2) "i" "o").run world =
      (((Remapper.remap (.direct 0 2) "i" "o").run world).1, afterRemap world) := rfl
  have chosen (remapper : Remapper) : [remapper][0]? = some remapper := rfl
  -- The world stays a variable here, so that comparing the states never runs anything.
  have start := (Reached.start world.files empty).opened graph tree options rfl
  rw [← opened] at start
  have once := start.remapped (chosen _) (.direct 0 2) "i" "o" (outside _) (ran world)
  have anew : Reached options.store [(reordered world).remapper] (reordered world).files _ :=
    once.reconfigured (chosen _) (borrowing [0, 1]).graph (borrowing [0, 1]).tree
  exact anew.remapped (chosen _) (.direct 0 2) "i" "o" (outside _) (ran (reordered world))

def borrowingWorld : World :=
  { remapper := .ofCatalog (.ofTree (borrowing [1, 0]).graph (borrowing [1, 0]).tree)
      (borrowing [1, 0]).options
    files := ⟨[(["i"], borrowingText)], [], []⟩
    notices := [] }

theorem reached_borrowingLog : Reached ⟨"s"⟩ [(afterRemap (reordered borrowingWorld)).remapper]
    (afterRemap (reordered borrowingWorld)).files (reorderedLog borrowingWorld) := by
  have opened : borrowingWorld.remapper = .ofCatalog (.ofTree (borrowing [1, 0]).graph
    (borrowing [1, 0]).tree) (borrowing [1, 0]).options := rfl
  exact reached_reorderedLog opened (Store.file?_placeOf_pathOf (by decide))

theorem borrowing_answers : ∃ made found, reorderedLog borrowingWorld = [made, found] ∧
    made.call = borrowingCall [1, 0] ∧ found.call = borrowingCall [0, 1] ∧
      found.cached = true ∧ ¬ found.Right := by
  have checked : (reorderedLog borrowingWorld).map
      (fun answer => (answer.call, answer.cached, decide answer.Right)) =
        [(borrowingCall [1, 0], false, true), (borrowingCall [0, 1], true, false)] := by
    decide +kernel
  simp only [List.map_eq_cons_iff, List.map_eq_nil_iff, Prod.mk.injEq] at checked
  obtain ⟨made, -, log, ⟨first, -, -⟩, found, -, rfl, ⟨second, cached, wrong⟩, rfl⟩ := checked
  exact ⟨made, found, log, first, second, cached, of_decide_eq_false wrong⟩

/-- The digests of the two calls are of the same strings, and no two of these collide. -/
theorem borrowing_apart : (∀ answer ∈ reorderedLog borrowingWorld, answer.call.Fits) ∧
    ∀ left ∈ reorderedLog borrowingWorld, ∀ right ∈ reorderedLog borrowingWorld,
      left.call.Apart right.call := by
  have checked : ((borrowingCall [1, 0]).digested.map Sha256.hexDigest).Nodup ∧
      ∀ parts ∈ (borrowingCall [1, 0]).partLists, ∀ part ∈ parts,
        part.utf8ByteSize < 2 ^ 64 := by
    decide +kernel
  have digested : (borrowingCall [0, 1]).digested = (borrowingCall [1, 0]).digested := rfl
  have parts : (borrowingCall [0, 1]).partLists = (borrowingCall [1, 0]).partLists := rfl
  have calls : ∀ answer ∈ reorderedLog borrowingWorld,
      answer.call.digested = (borrowingCall [1, 0]).digested ∧
        answer.call.partLists = (borrowingCall [1, 0]).partLists := by
    obtain ⟨made, found, log, first, second, -, -⟩ := borrowing_answers
    rw [log, List.forall_mem_cons, List.forall_mem_singleton, first, second]
    exact ⟨⟨rfl, rfl⟩, digested, parts⟩
  constructor
  · intro answer member
    rw [HopCall.Fits, (calls answer member).2]
    exact checked.2
  · intro left member right among
    rw [HopCall.Apart, (calls left member).1, (calls right among).1]
    exact fun first inside second within => List.inj_on_of_nodup_map checked.1 inside within

theorem cached_right_iff_reordered : ∃ remappers files,
    Reached ⟨"s"⟩ remappers files (reorderedLog borrowingWorld) ∧
      ((∀ answer ∈ reorderedLog borrowingWorld, answer.cached = true → answer.Right) ↔
        ∀ left ∈ reorderedLog borrowingWorld, ∀ right ∈ reorderedLog borrowingWorld,
          HopCall.Alike left.call right.call → left.call.fresh? = right.call.fresh?) :=
  ⟨_, _, reached_borrowingLog,
    cached_right_iff reached_borrowingLog borrowing_apart.1 borrowing_apart.2⟩

/-- An artifact is found that borrows its names as they were borrowed before. -/
theorem finds_stale_artifact : ∃ remappers files log, Reached ⟨"s"⟩ remappers files log ∧
    (∀ answer ∈ log, answer.call.Fits) ∧
      (∀ left ∈ log, ∀ right ∈ log, left.call.Apart right.call) ∧
        ∃ answer ∈ log, answer.cached = true ∧ answer.call.fresh? ≠ some answer.content := by
  obtain ⟨made, found, log, -, -, cached, wrong⟩ := borrowing_answers
  refine ⟨_, _, _, reached_borrowingLog, borrowing_apart.1, borrowing_apart.2, found, ?_, cached,
    wrong⟩
  rw [log]
  simp

end Reached

end ArchiveRemap
