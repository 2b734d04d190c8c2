import ArchiveRemap.Proofs.Remapper.Steady

/-!
Repeating a remap. Everything that the first run made is found by the second, so the second
changes nothing at all. It reports what the first did, except for the reference maps: the
first tells what the work on mixins found, the second what files with a telling name hold in
the artifacts.
-/

namespace ArchiveRemap

namespace Remapper

open Run

variable {input output : String} {source target : Nat} {route : List Nat}
  {world after : World} {report : HopResult} {reports : List HopResult} {request : Request}

/-- A hop as it is told when its artifact is found. -/
def recalled (files : FileTree) (report : HopResult) : Except RequestError HopResult :=
  match storedRefmaps files report.artifact with
  | .ok refmaps => .ok { report with cached := true, warnings := [], refmaps }
  | .error cause => .error (.engine report.source report.target cause)

/-- The hop would find the artifact that the report tells of, and if it did find it when the
report was made, it would find the same reference maps. -/
def Recalls (world : World) (input : String) (source target : Nat) (report : HopResult) : Prop :=
  ∃ key content, world.remapper.keyOf world.files .input input source target = .ok key ∧
    report.source = key.source ∧ report.target = key.target ∧
    report.artifact = world.remapper.options.store.pathOf key ∧
    world.files.read report.artifact = .ok content ∧
    (report.cached = true → storedRefmaps world.files report.artifact = .ok report.refmaps)

inductive RecallsAll (world : World) : String → Nat → List Nat → List HopResult → Prop where
  | none (input : String) (source : Nat) : RecallsAll world input source [] []
  | hop {input : String} {source target : Nat} {rest : List Nat} {report : HopResult}
      {reports : List HopResult} (first : Recalls world input source target report)
      (others : RecallsAll world report.artifact target rest reports) :
      RecallsAll world input source (target :: rest) (report :: reports)

/-! Finding again. -/

theorem storedRefmaps_of_read {files later : FileTree} {path content : String}
    (before : files.read path = .ok content) (held : later.read path = .ok content) :
    storedRefmaps later path = storedRefmaps files path := by
  simp only [storedRefmaps, readArchive, before, held]

/-- What would be found is found as long as all files that matter stay. -/
theorem Recalls.still (recalls : Recalls world input source target report)
    (same : after.remapper.config = world.remapper.config)
    (reads : ∀ path ∈ input :: report.artifact ::
      (world.remapper.options.classpath.archives ++
        world.remapper.options.classpath.libraries), ∀ text,
        world.files.read path = .ok text → after.files.read path = .ok text) :
    Recalls after input source target report := by
  obtain ⟨key, content, keyed, near, far, artifact, held, told⟩ := recalls
  have again := reads _ (by simp) content held
  have options : after.remapper.options = world.remapper.options :=
    congrArg Config.options same
  refine ⟨key, content, ?_, near, far, options ▸ artifact, again, fun cached => ?_⟩
  · refine keyOf_of_reads same ?_ keyed
    intro path member
    rw [List.mem_cons] at member
    rcases member with rfl | member
    · exact reads _ (by simp)
    · exact reads path (.tail _ (.tail _ member))
  · rw [storedRefmaps_of_read held again, told cached]

theorem RecallsAll.later (recalls : RecallsAll world input source route reports)
    {kinds : List HopRole} (leads : world.Leads kinds after) :
    RecallsAll after input source route reports := by
  induction recalls with
  | none => exact .none _ _
  | hop first others ih =>
      exact .hop (first.still leads.config fun path _ text held => leads.files.read held) ih

theorem recalls_of_inputHop (ready : world.Ready)
    (ran : (inputHop input source target).run world = (.ok report, after)) :
    Recalls after input source target report := by
  have leads := (steady_inputHop input source target).leads ready ran
  obtain ⟨key, keyed, near, far, artifact, found | made⟩ :=
    makeHop_eq_ok (steady_classpathAt source) ready ran
  · obtain ⟨-, content, held⟩ := Store.lookup?_eq_some_iff.mp found.there
    rw [found.stays]
    exact ⟨key, content, keyed, near, far, artifact, artifact ▸ held, fun _ => found.refmaps⟩
  · -- It ran, so there is nothing to say about reference maps.
    obtain ⟨later, last, table, paths, seen, content, made⟩ := made
    refine ⟨key, content, ?_, near, far, leads.options.symm ▸ artifact, made.stored,
      fun cached => absurd (made.told.symm.trans cached) (by decide)⟩
    exact keyOf_of_reads leads.config (fun path _ text held => leads.files.read held) keyed

theorem recallsAll_of_makeHops (ready : world.Ready)
    (ran : (makeHops inputHop input source route).run world = (.ok reports, after)) :
    RecallsAll after input source route reports := by
  induction route generalizing input source reports world with
  | nil =>
      cases ran
      exact .none _ _
  | cons target rest ih =>
      rw [run_makeHops_cons] at ran
      rcases first : (inputHop input source target).run world with ⟨fault | report, later⟩
      · rw [first] at ran
        cases ran
      · rw [first] at ran
        simp only [] at ran
        have leads := (steady_inputHop input source target).leads ready first
        rcases second : (makeHops inputHop report.artifact target rest).run later with
          ⟨fault | others, last⟩
        · rw [second] at ran
          cases ran
        · rw [second] at ran
          cases ran
          have more := (steady_makeHops steady_inputHop _ _ _).leads leads.ready second
          -- What the first hop made is still there after the others.
          have one : RecallsAll later input source [target] [report] :=
            .hop (recalls_of_inputHop ready first) (.none _ _)
          cases one.later more with
          | hop first _ => exact .hop first (ih leads.ready second)

theorem inputHop_of_recalls (recalls : Recalls world input source target report) :
    (inputHop input source target).run world = (recalled world.files report, world) := by
  obtain ⟨key, content, keyed, near, far, artifact, held, -⟩ := recalls
  rw [inputHop, run_makeHop, keyed]
  simp only []
  rw [Store.lookup?_of_read (artifact ▸ held), ← artifact]
  simp only [recalled]
  obtain ⟨text, archives, libraries, -, -, -, rfl⟩ := keyOf_eq_ok_iff.mp keyed
  rw [near, far]
  cases storedRefmaps world.files report.artifact <;> rfl

theorem makeHops_of_recallsAll (recalls : RecallsAll world input source route reports) :
    (makeHops inputHop input source route).run world =
      (reports.mapM (recalled world.files), world) := by
  induction recalls with
  | none input source => rfl
  | @hop input source target rest report reports first others ih =>
      rw [run_makeHops_cons, inputHop_of_recalls first]
      cases told : recalled world.files report with
      | error fault => simp [List.mapM_cons, told, bind, Except.bind]
      | ok again =>
          have artifact : again.artifact = report.artifact := by
            unfold recalled at told
            split at told <;> cases told
            rfl
          simp only []
          rw [artifact, ih, List.mapM_cons, told]
          cases reports.mapM (recalled world.files) <;> rfl

/-! Delivering. -/

/-- The last artifact of hops that would be found is the input or an artifact. -/
theorem RecallsAll.last (recalls : RecallsAll world input source route reports) :
    lastArtifact input reports = input ∨ ∃ key content,
      lastArtifact input reports = world.remapper.options.store.pathOf key ∧
        world.files.read (lastArtifact input reports) = .ok content := by
  induction recalls with
  | none => exact .inl rfl
  | @hop input source target rest report reports first others ih =>
      obtain ⟨key, content, -, -, -, artifact, held, -⟩ := first
      rw [lastArtifact_cons]
      rcases ih with same | found
      · exact .inr ⟨key, content, same.trans artifact, same.symm ▸ held⟩
      · exact .inr found

/-- What is delivered can be read, and it is not at the output already. -/
theorem RecallsAll.read_last (recalls : RecallsAll world input source route reports)
    (present : world.files.isFileAt input = true)
    (apart : world.files.placeOf input ≠ world.files.placeOf output)
    (outside : ∀ key, world.artifactPlace key ≠ world.files.placeOf output) :
    ∃ text, world.files.read (lastArtifact input reports) = .ok text ∧
      world.files.placeOf (lastArtifact input reports) ≠ world.files.placeOf output := by
  rcases recalls.last with plain | ⟨key, text, artifact, held⟩
  · obtain ⟨text, held⟩ := FileTree.isFileAt_iff.mp present
    rw [plain]
    exact ⟨text, held, apart⟩
  · refine ⟨text, held, ?_⟩
    rw [artifact]
    exact outside key

/-- A file that is put elsewhere hides nothing that would be found. -/
theorem RecallsAll.putFile {place : Place} {text : String} {notices : List Notice}
    (recalls : RecallsAll world input source route reports)
    (inputs : ∀ path ∈ input :: (world.remapper.options.classpath.archives ++
      world.remapper.options.classpath.libraries), world.files.placeOf path ≠ place)
    (outside : ∀ key, world.artifactPlace key ≠ place) :
    RecallsAll { world with files := world.files.putFile place text, notices } input source
      route reports := by
  induction recalls with
  | none => exact .none _ _
  | @hop input source target rest report reports first others ih =>
      have artifact : world.files.placeOf report.artifact ≠ place := by
        obtain ⟨key, content, -, -, -, artifact, -, -⟩ := first
        exact artifact ▸ outside key
      rw [List.forall_mem_cons] at inputs
      refine .hop (first.still rfl ?_) (ih (List.forall_mem_cons.mpr
        ⟨artifact, inputs.2⟩))
      intro path member text held
      refine FileTree.read_putFile_of_ne held ?_
      rw [List.mem_cons, List.mem_cons] at member
      rcases member with rfl | rfl | member
      · exact inputs.1
      · exact artifact
      · exact inputs.2 path member

theorem lastArtifact_of_recalled {files : FileTree} {again : List HopResult}
    (told : reports.mapM (recalled files) = .ok again) :
    lastArtifact input again = lastArtifact input reports := by
  have same : again.map (·.artifact) = reports.map (·.artifact) := by
    have all := mapM_eq_ok_iff.mp told
    clear told
    induction all with
    | nil => rfl
    | cons first _ ih =>
        unfold recalled at first
        split at first <;> cases first
        rw [List.map_cons, List.map_cons, ih]
  rw [lastArtifact, lastArtifact, ← List.getLast?_map, ← List.getLast?_map, same]

/-- Hops that are told with the same reference maps again have stored these. -/
theorem stored_of_recalled {files : FileTree} {again : List HopResult}
    (told : reports.mapM (recalled files) = .ok again)
    (same : again.map (·.refmaps) = reports.map (·.refmaps)) :
    ∀ report ∈ reports, storedRefmaps files report.artifact = .ok report.refmaps := by
  have all := mapM_eq_ok_iff.mp told
  clear told
  induction all with
  | nil => simp
  | @cons report other reports others first _ ih =>
      rw [List.map_cons, List.map_cons, List.cons.injEq] at same
      rw [List.forall_mem_cons]
      refine ⟨?_, ih same.2⟩
      unfold recalled at first
      cases stored : storedRefmaps files report.artifact with
      | error cause => rw [stored] at first; cases first
      | ok refmaps =>
          rw [stored] at first
          cases first
          rw [← same.1]

theorem mapM_recalled_of_stored {files : FileTree}
    (stored : ∀ report ∈ reports,
      storedRefmaps files report.artifact = .ok report.refmaps) :
    reports.mapM (recalled files) =
      .ok (reports.map fun report => { report with cached := true, warnings := [] }) := by
  rw [mapM_eq_ok_iff, List.forall₂_map_right_iff, List.forall₂_same]
  intro report member
  simp only [recalled, stored report member]

theorem RecallsAll.told (recalls : RecallsAll world input source route reports) :
    ∀ report ∈ reports, report.cached = true →
      storedRefmaps world.files report.artifact = .ok report.refmaps := by
  induction recalls with
  | none => simp
  | hop first others ih =>
      obtain ⟨-, -, -, -, -, -, -, told⟩ := first
      exact List.forall_mem_cons.mpr ⟨told, ih⟩

/-- What a remap leaves lets it be run again, and the second run leaves the world as it is. -/
theorem remap_again {result : RemapResult} (ready : world.Ready)
    (present : world.files.isFileAt input = true)
    (inputs : ∀ path ∈ input :: (world.remapper.options.classpath.archives ++
      world.remapper.options.classpath.libraries),
        world.files.placeOf path ≠ world.files.placeOf output)
    (outside : ∀ key, world.artifactPlace key ≠ world.files.placeOf output)
    (ran : (remap request input output).run world = (.ok result, after)) :
    (remap request input output).run after =
        ((result.hops.mapM (recalled after.files)).map fun hops => { result with hops }, after) ∧
      ∀ hop ∈ result.hops, hop.cached = true →
        storedRefmaps after.files hop.artifact = .ok hop.refmaps := by
  obtain ⟨path, named, hops⟩ := result
  obtain ⟨route, later, last, files, routed, hopped, delivered, told, rfl⟩ := remap_eq_ok ran
  cases told
  have first : world.Leads [.input, .classpath] later := (steady_route request).leads ready routed
  have second := (steady_makeHops steady_inputHop _ _ _).leads first.ready hopped
  have leads := first.trans second
  have recalls := recallsAll_of_makeHops first.ready hopped
  have same := leads.files.placeOf
  have still : last.files.isFileAt input = true :=
    FileTree.isFileAt_iff.mpr
      ((FileTree.isFileAt_iff.mp present).imp fun _ held => leads.files.read held)
  have apart : last.files.placeOf input ≠ last.files.placeOf output := by
    rw [same, same]
    exact inputs input List.mem_cons_self
  have outer (key : ArtifactId) : last.artifactPlace key ≠ last.files.placeOf output := by
    rw [same, leads.artifactPlace]
    exact outside key
  -- What is copied is the input or an artifact, so it is not the output.
  obtain ⟨text, held, apart⟩ := recalls.read_last still apart outer
  obtain ⟨-, place, located, -, -, -, put⟩ := (copyFile_eq_ok_iff held).mp delivered
  have target : place = world.files.placeOf output :=
    (FileTree.eq_placeOf_of_locate located).trans (same output)
  have kept : RecallsAll { last with files } input request.source route hops := by
    rw [put]
    refine recalls.putFile ?_ ?_
    · intro path member
      rw [leads.options] at member
      rw [same, target]
      exact inputs path member
    · intro key
      rw [leads.artifactPlace, target]
      exact outside key
  -- The route is remembered, so the second run takes the same one without a search.
  have known : last.remapper.routes.get? request = some route := by
    rw [run_route, Prod.mk.injEq] at routed
    obtain ⟨found, rfl⟩ := routed
    exact second.routes request route (RouteCache.get?_route found)
  have names : last.remapper.graph = later.remapper.graph := second.graph
  refine ⟨?_, kept.told⟩
  rw [run_remap, run_route]
  simp only [RouteCache.route_of_known known]
  rw [makeHops_of_recallsAll kept]
  cases told : hops.mapM (recalled files) with
  | error fault => rfl
  | ok again =>
      -- The same file is copied over its own copy.
      simp only [run_deliver]
      rw [lastArtifact_of_recalled told,
        copyFile_again held apart delivered, names, List.append_nil]
      rfl

/-- Repeating a remap finds every artifact and leaves the world as it is. It reports what the
first call did exactly if each hop that ran told the reference maps that its artifact shows. -/
theorem remap_again_iff {result : RemapResult} (ready : world.Ready)
    (present : world.files.isFileAt input = true)
    (inputs : ∀ path ∈ input :: (world.remapper.options.classpath.archives ++
      world.remapper.options.classpath.libraries),
        world.files.placeOf path ≠ world.files.placeOf output)
    (outside : ∀ key, world.artifactPlace key ≠ world.files.placeOf output)
    (ran : (remap request input output).run world = (.ok result, after)) :
    (∃ again, (remap request input output).run after = (.ok again, after) ∧
      again.path = result.path ∧ again.output = result.output ∧
      (∀ hop ∈ again.hops, hop.cached = true) ∧
      again.hops.map (·.artifact) = result.hops.map (·.artifact) ∧
      again.hops.map (·.refmaps) = result.hops.map (·.refmaps)) ↔
    ∀ hop ∈ result.hops, hop.cached = false →
      storedRefmaps after.files hop.artifact = .ok hop.refmaps := by
  obtain ⟨again, found⟩ := remap_again ready present inputs outside ran
  rw [again]
  constructor
  · rintro ⟨second, same, -, -, -, -, refmaps⟩ hop member -
    cases told : result.hops.mapM (recalled after.files) with
    | error fault => rw [told] at same; cases same
    | ok hops =>
        rw [told] at same
        cases same
        exact stored_of_recalled told refmaps hop member
  · intro fresh
    have stored : ∀ hop ∈ result.hops,
        storedRefmaps after.files hop.artifact = .ok hop.refmaps := by
      intro hop member
      cases cached : hop.cached with
      | true => exact found hop member cached
      | false => exact fresh hop member cached
    refine ⟨{ result with hops := result.hops.map fun hop =>
      { hop with cached := true, warnings := [] } }, ?_, rfl, rfl, ?_, ?_, ?_⟩
    · rw [mapM_recalled_of_stored stored]
      rfl
    · simp
    · simp
    · simp

/-- Two namespaces, no mappings, no work on mixins, and an archive with a reference map. -/
def mixinFreeWorld : World :=
  let refmap : Mixin.ReferenceMap := ⟨.ofList [("C", .ofList [("x", "y")])]⟩
  let archive : Archive := ⟨[("refmap.json", .text refmap.write)]⟩
  { remapper := .ofCatalog (.ofTree ⟨[⟨"a", false, []⟩, ⟨"b", true, [0]⟩]⟩ ⟨["a", "b"], []⟩)
      { store := ⟨"s"⟩
        patchState := none
        mixin := { Mixin.Options.standard with enabled := false }
        ignoreMismatch := false
        classpath := ⟨none, [], []⟩ }
    files := ⟨[(["i"], archive.write)], [], []⟩
    notices := [] }

/-- The number of maps that each hop tells and the number that its artifact shows. -/
def mapCounts (result : RemapResult) (after : World) : List (Nat × Option Nat) :=
  result.hops.map fun hop => (hop.refmaps.entries.length,
    (storedRefmaps after.files hop.artifact).toOption.map (·.entries.length))

theorem remap_mixinFreeWorld : ∃ result after,
    (remap (.direct 0 1) "i" "o").run mixinFreeWorld = (.ok result, after) ∧
      result.hops.map (·.cached) = [false] ∧ mapCounts result after = [(0, some 1)] := by
  have checked : (match (remap (.direct 0 1) "i" "o").run mixinFreeWorld with
    | (.ok result, after) => some (result.hops.map (·.cached), mapCounts result after)
    | (.error _, _) => none) = some ([false], [(0, some 1)]) := by decide +kernel
  split at checked
  · rename_i result after ran
    rw [Option.some.injEq, Prod.mk.injEq] at checked
    exact ⟨result, after, ran, checked⟩
  · cases checked

theorem mixinFreeWorld_ready : mixinFreeWorld.Ready :=
  .inr (Store.file?_placeOf_pathOf (by decide))

theorem remap_again_iff_mixinFree : ∃ result after,
    (remap (.direct 0 1) "i" "o").run mixinFreeWorld = (.ok result, after) ∧
      ((∃ again, (remap (.direct 0 1) "i" "o").run after = (.ok again, after) ∧
        again.path = result.path ∧ again.output = result.output ∧
        (∀ hop ∈ again.hops, hop.cached = true) ∧
        again.hops.map (·.artifact) = result.hops.map (·.artifact) ∧
        again.hops.map (·.refmaps) = result.hops.map (·.refmaps)) ↔
      ∀ hop ∈ result.hops, hop.cached = false →
        storedRefmaps after.files hop.artifact = .ok hop.refmaps) := by
  obtain ⟨result, after, ran, -⟩ := remap_mixinFreeWorld
  exact ⟨result, after, ran, remap_again_iff mixinFreeWorld_ready (by decide) (by decide)
    (Store.placeOf_pathOf_ne rfl (by decide)) ran⟩

/-- The archive shows its reference map only to the call that finds it. -/
theorem remap_again_shows_map : ∃ result after again,
    (remap (.direct 0 1) "i" "o").run mixinFreeWorld = (.ok result, after) ∧
      (remap (.direct 0 1) "i" "o").run after = (.ok again, after) ∧
      again.hops.map (·.refmaps) ≠ result.hops.map (·.refmaps) := by
  obtain ⟨result, after, ran, fresh, counts⟩ := remap_mixinFreeWorld
  obtain ⟨second, -⟩ := remap_again mixinFreeWorld_ready (by decide) (by decide)
    (Store.placeOf_pathOf_ne rfl (by decide)) ran
  obtain ⟨path, output, hops⟩ := result
  simp only [mapCounts, List.map_eq_cons_iff, List.map_eq_nil_iff, Prod.mk.injEq] at counts
  obtain ⟨hop, -, rfl, ⟨none, one⟩, rfl⟩ := counts
  cases stored : storedRefmaps after.files hop.artifact with
  | error cause => simp [stored, Except.toOption] at one
  | ok refmaps =>
      have told : recalled after.files hop =
          .ok { hop with cached := true, warnings := [], refmaps } := by
        simp only [recalled, stored]
      refine ⟨_, after, ⟨path, output, [{ hop with cached := true, warnings := [], refmaps }]⟩,
        ran, ?_, ?_⟩
      · rw [second, List.mapM_cons, told]
        rfl
      · intro same
        simp only [List.map_cons, List.map_nil, List.cons.injEq, and_true] at same
        simp [stored, same, none, Except.toOption] at one

end Remapper

end ArchiveRemap
