import ArchiveRemap.Proofs.Remapper.Key
import ArchiveRemap.Proofs.Remapper.Run
import ArchiveRemap.Proofs.Store.Key
import ArchiveRemap.Proofs.Store.Publish
import ArchiveRemap.Proofs.Tiny.Catalog

/-!
What a run of hops does to the world, whether it ends well or fails. Graph, mapping data and
options stay, what is remembered stays true, and no file changes but for artifacts that were
not there before.
-/

namespace ArchiveRemap

/-- What a remapper remembers is what it would find again. -/
structure Remapper.Faithful (remapper : Remapper) : Prop where
  routes : ∀ request path, remapper.routes.get? request = some path →
    remapper.graph.route request = .ok path
  tables : ∀ source target table, remapper.catalog.tables.get? (source, target) = some table →
    makeTable remapper.graph remapper.catalog.tree source target = .ok table

namespace World

/-- The place of the artifact of a key. -/
def artifactPlace (world : World) (key : ArtifactId) : Place :=
  world.files.placeOf (world.remapper.options.store.pathOf key)

def Ready (world : World) : Prop := world.remapper.options.store.Ready world.files

/-- A later world, where hops of some kinds may have been run in between. -/
structure Leads (kinds : List HopRole) (world after : World) : Prop where
  config : after.remapper.config = world.remapper.config
  routes : ∀ request path, world.remapper.routes.get? request = some path →
    after.remapper.routes.get? request = some path
  faithful : world.remapper.Faithful → after.remapper.Faithful
  files : world.files.Keeps after.files
  ready : after.Ready
  settled : world.files.isDirectoryAt world.remapper.options.store.root = true →
    after.files.directories = world.files.directories
  elsewhere : ∀ place, (∀ key, key.kind ∈ kinds → place ≠ world.artifactPlace key) →
    after.files.file? place = world.files.file? place

namespace Leads

variable {kinds more : List HopRole} {world middle after : World}

theorem refl (ready : world.Ready) : Leads kinds world world :=
  ⟨rfl, fun _ _ found => found, id, .refl _, ready, fun _ => rfl, fun _ _ => rfl⟩

theorem mono (leads : Leads kinds world after) (fewer : ∀ kind ∈ kinds, kind ∈ more) :
    Leads more world after :=
  { leads with
    elsewhere := fun place apart =>
      leads.elsewhere place fun key member => apart key (fewer _ member) }

theorem options (leads : Leads kinds world after) :
    after.remapper.options = world.remapper.options := congrArg Config.options leads.config

theorem graph (leads : Leads kinds world after) :
    after.remapper.graph = world.remapper.graph := congrArg Config.graph leads.config

theorem tree (leads : Leads kinds world after) :
    after.remapper.catalog.tree = world.remapper.catalog.tree :=
  congrArg Config.tree leads.config

theorem artifactPlace (leads : Leads kinds world after) (key : ArtifactId) :
    after.artifactPlace key = world.artifactPlace key := by
  rw [World.artifactPlace, World.artifactPlace, leads.options, leads.files.placeOf]

theorem trans (first : Leads kinds world middle) (second : Leads kinds middle after) :
    Leads kinds world after where
  config := second.config.trans first.config
  routes request path found := second.routes request path (first.routes request path found)
  faithful known := second.faithful (first.faithful known)
  files := first.files.trans second.files
  ready := second.ready
  settled root := by
    have later : middle.files.isDirectoryAt middle.remapper.options.store.root = true := by
      rw [first.options]
      exact first.files.isDirectoryAt root
    rw [second.settled later, first.settled root]
  elsewhere place apart := by
    have later : ∀ key, key.kind ∈ kinds → place ≠ middle.artifactPlace key := by
      intro key member
      rw [first.artifactPlace key]
      exact apart key member
    rw [second.elsewhere place later, first.elsewhere place apart]

/-- An artifact of another kind is not found later if it was not found before. -/
theorem absent (leads : Leads kinds world after) (ready : world.Ready) {key : ArtifactId}
    (other : key.kind ∉ kinds)
    (missing : world.remapper.options.store.lookup? world.files key = none) :
    after.remapper.options.store.lookup? after.files key = none := by
  have same : after.files.file? (world.artifactPlace key) =
      world.files.file? (world.artifactPlace key) := by
    refine leads.elsewhere _ fun another member equal => other ?_
    rw [(Store.digest_eq_of_placeOf_eq equal).2]
    exact member
  rw [leads.options, Store.lookup?_eq_none_iff]
  rw [Store.lookup?_eq_none_iff] at missing
  intro content held
  obtain ⟨place, located, plain, there⟩ := FileTree.read_eq_ok_iff.mp held
  have named : place = world.artifactPlace key := by
    rw [FileTree.eq_placeOf_of_locate located, leads.files.placeOf, World.artifactPlace]
  rw [named, same, ← named] at there
  rcases ready with root | empty
  · -- The directories have not changed, so the path led to the file before.
    have directories (place : Place) :
        after.files.isDirectory place = world.files.isDirectory place := by
      simp only [FileTree.isDirectory, leads.settled root]
    have grown : ∀ place, after.files.isDirectory place = true →
        world.files.isDirectory place = true := fun place => (directories place).symm.trans
    have located := FileTree.locate_of_grown leads.files.here.symm grown located
    rw [directories] at plain
    exact missing content (FileTree.read_eq_ok_iff.mpr ⟨place, located, plain, there⟩)
  · rw [named, World.artifactPlace, empty key] at there
    cases there

end Leads

end World

/-! What is remembered. -/

namespace RouteCache

variable {cache : RouteCache} {graph : Graph}

theorem route_kept {request : Request} {path : List Nat} (asked : Request)
    (found : cache.get? request = some path) :
    (cache.route graph asked).2.get? request = some path := by
  unfold route
  cases known : cache.get? asked with
  | some route => exact found
  | none =>
      cases graph.route asked with
      | error fault => exact found
      | ok route =>
          have apart : asked ≠ request := by
            rintro rfl
            rw [known] at found
            cases found
          change (Keyed.put asked route cache).get? request = _
          rw [Keyed.get?_put, if_neg apart, found]

theorem get?_route {request : Request} {path : List Nat}
    (found : (cache.route graph request).1 = .ok path) :
    (cache.route graph request).2.get? request = some path := by
  unfold route at found ⊢
  cases known : cache.get? request with
  | some route =>
      rw [known] at found
      cases found
      exact known
  | none =>
      rw [known] at found
      cases fresh : graph.route request with
      | error fault => rw [fresh] at found; cases found
      | ok route =>
          rw [fresh] at found
          cases found
          change (Keyed.put request path cache).get? request = _
          rw [Keyed.get?_put, if_pos rfl]

theorem route_of_known {request : Request} {path : List Nat}
    (known : cache.get? request = some path) : cache.route graph request = (.ok path, cache) := by
  simp only [route, known]

variable (faithful : ∀ request path, cache.get? request = some path →
  graph.route request = .ok path)

include faithful

theorem route_eq (request : Request) : (cache.route graph request).1 = graph.route request := by
  unfold route
  cases known : cache.get? request with
  | some path => exact (faithful request path known).symm
  | none => cases graph.route request <;> rfl

theorem route_faithful (asked request : Request) (path : List Nat)
    (found : (cache.route graph asked).2.get? request = some path) :
    graph.route request = .ok path := by
  unfold route at found
  cases known : cache.get? asked with
  | some route =>
      rw [known] at found
      exact faithful request path found
  | none =>
      rw [known] at found
      cases fresh : graph.route asked with
      | error fault =>
          rw [fresh] at found
          exact faithful request path found
      | ok route =>
          rw [fresh] at found
          change (Keyed.put asked route cache).get? request = _ at found
          rw [Keyed.get?_put] at found
          split at found
          · rename_i same
            cases found
            rw [← same, fresh]
          · exact faithful request path found

end RouteCache

/-! Runs that only lead to later worlds. -/

namespace Run

variable {α β : Type} {kinds : List HopRole}

/-- Whatever comes of the run, the world that it leaves is a later one. -/
def Steady (kinds : List HopRole) (run : Run α) : Prop :=
  ∀ world : World, world.Ready → world.Leads kinds (run.run world).2

theorem Steady.leads {run : Run α} (steady : Steady kinds run) {world after : World}
    {result : Except RequestError α} (ready : world.Ready)
    (ran : run.run world = (result, after)) : world.Leads kinds after := by
  have leads := steady world ready
  rwa [ran] at leads

theorem steady_pure (value : α) : Steady kinds (pure value : Run α) :=
  fun _ ready => .refl ready

theorem Steady.bind {run : Run α} {next : α → Run β} (first : Steady kinds run)
    (second : ∀ value, Steady kinds (next value)) : Steady kinds (run >>= next) := by
  intro world ready
  rw [run_bind]
  rcases ran : run.run world with ⟨fault | value, later⟩
  · exact first.leads ready ran
  · have leads := first.leads ready ran
    exact leads.trans (second value later leads.ready)

theorem steady_route (request : Request) : Steady kinds (route request) := by
  intro world ready
  have stays : world.Leads kinds world := .refl ready
  rw [run_route]
  exact
    { stays with
      routes := fun _ _ found => RouteCache.route_kept request found
      faithful := fun known =>
        ⟨RouteCache.route_faithful known.routes request, known.tables⟩ }

theorem config_table (source target : Nat) (world : World) :
    ((table source target).run world).2.remapper.config = world.remapper.config :=
  congrArg₂ (Config.mk · · world.remapper.options) Catalog.graph_table Catalog.tree_table

theorem steady_table (source target : Nat) : Steady kinds (table source target) := by
  intro world ready
  have stays : world.Leads kinds world := .refl ready
  have graph : (world.remapper.catalog.table source target).2.graph = world.remapper.graph :=
    Catalog.graph_table
  have tree : (world.remapper.catalog.table source target).2.tree =
      world.remapper.catalog.tree := Catalog.tree_table
  refine { stays with config := config_table source target world,
                      faithful := fun known => ⟨?_, ?_⟩ }
  · intro request path found
    exact (congrArg (·.route request) graph).trans (known.routes request path found)
  · intro near far made found
    change makeTable (world.remapper.catalog.table source target).2.graph
      (world.remapper.catalog.table source target).2.tree near far = _
    rw [graph, tree]
    exact Catalog.table_faithful known.tables near far made found

theorem Steady.mapM {step : α → Run β} (steady : ∀ value, Steady kinds (step value))
    (values : List α) : Steady kinds (values.mapM step) := by
  induction values with
  | nil => exact steady_pure []
  | cons value rest ih =>
      rw [List.mapM_cons]
      exact (steady value).bind fun _ => ih.bind fun _ => steady_pure _

end Run

namespace Remapper

open Run

variable {kinds : List HopRole} {kind : HopRole} {input : String} {source target : Nat}

/-- A hop that has to run publishes its artifact, and nothing else changes. -/
theorem leads_publishHop {world : World} (ready : world.Ready) {key : ArtifactId}
    (member : key.kind ∈ kinds)
    (missing : world.remapper.options.store.lookup? world.files key = none)
    (table : RenameTable) (classpath : List String) :
    world.Leads kinds
      ((changing source target (publishHop key table classpath input)).run world).2 := by
  rw [run_changing]
  generalize published : world.remapper.options.store.publish key
    (renameFile world.remapper.options key.kind table classpath input) world.files = outcome
  obtain ⟨result, told, files⟩ := outcome
  obtain ⟨keeps, after⟩ := Store.keeps_publish ready missing published
  have stays : world.Leads kinds world := .refl ready
  simp only [publishHop, published]
  refine { stays with files := keeps, ready := after, settled := ?_, elsewhere := ?_ }
  · -- The root is there, so publishing has no directories to make.
    intro root
    have made := FileTree.makeDirectories_of_there root
    rcases Store.publish_cases published with ⟨-, -, rfl⟩ | ⟨-, -, -, -, -, -, -, -, -, -, rfl⟩
    · rw [made]
    · rw [made]
      rfl
  · intro place apart
    exact Store.file?_publish published (.inr (apart key member))

theorem steady_makeHop {classpath : Run (List String)} (steady : Steady kinds classpath)
    (other : kind ∉ kinds) :
    Steady (kind :: kinds) (makeHop kind classpath input source target) := by
  intro world ready
  have stays : world.Leads (kind :: kinds) world := .refl ready
  have more : ∀ other ∈ kinds, other ∈ kind :: kinds := fun _ member => .tail _ member
  rw [run_makeHop]
  cases keyed : world.remapper.keyOf world.files kind input source target with
  | error cause => exact stays
  | ok key =>
      simp only []
      cases missing : world.remapper.options.store.lookup? world.files key with
      | some path => exact stays
      | none =>
          simp only []
          rcases tabled : (table source target).run world with ⟨fault | made, later⟩
          · exact (steady_table source target).leads ready tabled
          · have first : world.Leads kinds later := (steady_table source target).leads ready tabled
            simp only []
            rcases derived : classpath.run later with ⟨fault | paths, last⟩
            · exact (first.trans (steady.leads first.ready derived)).mono more
            · have second := first.trans (steady.leads first.ready derived)
              have role := kind_of_keyOf keyed
              -- Making the classpath published hops of other kinds only.
              have missing := second.absent ready (role ▸ other) missing
              exact (second.mono more).trans
                (leads_publishHop second.ready (by simp [role]) missing made paths)

/-! What a hop comes to. -/

/-- A hop that finds its artifact tells the reference maps that are stored in it. -/
structure Found (world : World) (key : ArtifactId) (report : HopResult) (after : World) :
    Prop where
  told : report.cached = true
  quiet : report.warnings = []
  stays : after = world
  there : world.remapper.options.store.lookup? world.files key =
    some (world.remapper.options.store.pathOf key)
  refmaps : storedRefmaps world.files report.artifact = .ok report.refmaps

/-- A hop that has to run makes a table, derives its classpath and renames what it sees then.
What comes of it is stored. -/
structure Made (classpath : Run (List String)) (input : String) (source target : Nat)
    (world : World) (key : ArtifactId) (report : HopResult) (after later last : World)
    (made : RenameTable) (paths : List String) (seen : FileTree) (content : String) :
    Prop where
  told : report.cached = false
  missing : world.remapper.options.store.lookup? world.files key = none
  tabled : (table source target).run world = (.ok made, later)
  derived : classpath.run later = (.ok paths, last)
  keeps : last.files.Keeps seen
  renamed : (renameFile world.remapper.options key.kind made paths input seen).1 = .ok content
  refmaps : report.refmaps =
    (renameFile world.remapper.options key.kind made paths input seen).2.refmaps
  stored : after.files.read report.artifact = .ok content

theorem publishHop_eq_ok {world after : World} {key : ArtifactId} {made : RenameTable}
    {paths : List String} {report : HopResult}
    (ran : (changing source target (publishHop key made paths input)).run world =
      (.ok report, after)) :
    report.source = key.source ∧ report.target = key.target ∧
      report.artifact = world.remapper.options.store.pathOf key ∧ report.cached = false ∧
      ∃ seen content, world.files.Keeps seen ∧
        (renameFile world.remapper.options key.kind made paths input seen).1 = .ok content ∧
        report.refmaps =
          (renameFile world.remapper.options key.kind made paths input seen).2.refmaps ∧
        after.files.read report.artifact = .ok content := by
  rw [run_changing] at ran
  generalize published : world.remapper.options.store.publish key
    (renameFile world.remapper.options key.kind made paths input) world.files = outcome at ran
  obtain ⟨result, told, files⟩ := outcome
  simp only [publishHop, published] at ran
  cases result with
  | error fault => cases ran
  | ok path =>
      obtain ⟨rfl, seen, content, keeps, renamed, rfl, stored⟩ := Store.read_publish published
      simp only [Option.map_some, Option.getD_some] at ran
      cases ran
      dsimp only
      exact ⟨rfl, rfl, rfl, rfl, seen, content, keeps, renamed, rfl, stored⟩

/-- A hop that ends well has found its artifact or made it. -/
theorem makeHop_eq_ok {classpath : Run (List String)} (steady : Steady kinds classpath)
    {world after : World} (ready : world.Ready) {report : HopResult}
    (ran : (makeHop kind classpath input source target).run world = (.ok report, after)) :
    ∃ key, world.remapper.keyOf world.files kind input source target = .ok key ∧
      report.source = key.source ∧ report.target = key.target ∧
      report.artifact = world.remapper.options.store.pathOf key ∧
      (Found world key report after ∨ ∃ later last made paths seen content,
        Made classpath input source target world key report after later last made paths seen
          content) := by
  rw [run_makeHop] at ran
  cases keyed : world.remapper.keyOf world.files kind input source target with
  | error cause => rw [keyed] at ran; cases ran
  | ok key =>
      rw [keyed] at ran
      simp only [] at ran
      refine ⟨key, rfl, ?_⟩
      cases missing : world.remapper.options.store.lookup? world.files key with
      | some path =>
          -- Found: the world stays, and the reference maps are read out of the artifact.
          rw [missing] at ran
          simp only [] at ran
          obtain ⟨rfl, -⟩ := Store.lookup?_eq_some_iff.mp missing
          cases stored : storedRefmaps world.files
              (world.remapper.options.store.pathOf key) with
          | error cause => rw [stored] at ran; cases ran
          | ok refmaps =>
              rw [stored] at ran
              cases ran
              dsimp only
              refine ⟨rfl, rfl, rfl, .inl ⟨rfl, rfl, rfl, missing, ?_⟩⟩
              simp only [stored]
      | none =>
          -- Made: a table, the classpath and the publication, each in the world of the last.
          rw [missing] at ran
          simp only [] at ran
          rcases tabled : (table source target).run world with ⟨fault | made, later⟩
          · rw [tabled] at ran
            cases ran
          · rw [tabled] at ran
            simp only [] at ran
            have first : world.Leads kinds later := (steady_table source target).leads ready tabled
            rcases derived : classpath.run later with ⟨fault | paths, last⟩
            · rw [derived] at ran
              cases ran
            · rw [derived] at ran
              simp only [] at ran
              have second := first.trans (steady.leads first.ready derived)
              -- The options are still those the hop began with.
              obtain ⟨near, far, artifact, told, seen, content, keeps, renamed, refmaps, stored⟩ :=
                publishHop_eq_ok ran
              rw [second.options] at artifact renamed refmaps
              exact ⟨near, far, artifact, .inr ⟨later, last, made, paths, seen, content, told,
                missing, tabled, derived, keeps, renamed, refmaps, stored⟩⟩

theorem steady_makeHops {hop : String → Nat → Nat → Run HopResult}
    (steady : ∀ input source target, Steady kinds (hop input source target))
    (input : String) (source : Nat) (route : List Nat) :
    Steady kinds (makeHops hop input source route) := by
  induction route generalizing input source with
  | nil => exact steady_pure []
  | cons target rest ih =>
      exact (steady input source target).bind fun report =>
        (ih report.artifact target).bind fun reports => steady_pure _

theorem steady_classpathHop (options : HopOptions) (archive : String) (source target : Nat) :
    Steady [.classpath] (classpathHop options archive source target) := by
  have none : Steady [] (pure options.classpath.libraries : Run (List String)) := steady_pure _
  exact steady_makeHop none (by simp)

theorem steady_deriveArchive (options : HopOptions) (base : Nat) (route : List Nat)
    (archive : String) : Steady [.classpath] (deriveArchive options base route archive) :=
  (steady_makeHops (steady_classpathHop options) archive base route).bind fun _ =>
    steady_pure _

theorem steady_classpathAt (target : Nat) : Steady [.classpath] (classpathAt target) := by
  intro world ready
  have stays : world.Leads [.classpath] world := .refl ready
  rw [run_classpathAt]
  cases world.remapper.baseOf with
  | error fault => exact stays
  | ok base =>
      simp only []
      split_ifs
      · exact stays
      · exact stays
      · rcases routed : (route (.direct base target)).run world with ⟨fault | path, later⟩
        · exact (steady_route _).leads ready routed
        · have first : world.Leads [.classpath] later := (steady_route _).leads ready routed
          simp only []
          rcases derived : (world.remapper.options.classpath.archives.mapM
            (deriveArchive world.remapper.options base path)).run later with
              ⟨fault | archives, last⟩
          · exact first.trans ((Steady.mapM (steady_deriveArchive _ base path) _).leads
              first.ready derived)
          · exact first.trans ((Steady.mapM (steady_deriveArchive _ base path) _).leads
              first.ready derived)

theorem steady_inputHop (input : String) (source target : Nat) :
    Steady [.input, .classpath] (inputHop input source target) :=
  steady_makeHop (steady_classpathAt source) (by simp)

/-- Whatever comes of a remap, it leads to a later world, in which a file may then have been
copied to the output. It has been if the remap ended well. -/
theorem leads_remap {request : Request} {output : String} {world after : World}
    {result : Except RequestError RemapResult} (ready : world.Ready)
    (ran : (remap request input output).run world = (result, after)) :
    ∃ last files, world.Leads [.input, .classpath] last ∧ after = { last with files } ∧
      (files = last.files ∨
        (∃ told, result = .ok told) ∧ ∃ file, copyFile last.files file output = (.ok (), files)) := by
  rw [run_remap] at ran
  rcases routed : (route request).run world with ⟨fault | path, later⟩
  all_goals
    have first : world.Leads [.input, .classpath] later :=
      (steady_route request).leads ready routed
    rw [routed] at ran
  · cases ran
    exact ⟨after, after.files, first, rfl, .inl rfl⟩
  simp only [] at ran
  rcases hopped : (makeHops inputHop input request.source path).run later with
    ⟨fault | reports, last⟩
  all_goals
    have second := first.trans
      ((steady_makeHops steady_inputHop _ _ _).leads first.ready hopped)
    rw [hopped] at ran
  · cases ran
    exact ⟨after, after.files, second, rfl, .inl rfl⟩
  simp only [run_deliver, List.append_nil] at ran
  rcases delivered : copyFile last.files (lastArtifact input reports) output with
    ⟨fault | done, files⟩
  all_goals
    rw [delivered] at ran
    cases ran
  · refine ⟨last, files, second, rfl, .inl ?_⟩
    rcases copyFile_cases delivered with ⟨-, -, same⟩ | ⟨-, -, -, -, -, -, impossible, -⟩
    · exact same
    · cases impossible
  · exact ⟨last, files, second, rfl, .inr ⟨⟨_, rfl⟩, _, delivered⟩⟩

/-- A remapper stays configured as it is, whatever comes of a remap. -/
theorem config_remap {world : World} (ready : world.Ready) (request : Request)
    (input output : String) :
    ((remap request input output).run world).2.remapper.config = world.remapper.config := by
  rcases ran : (remap request input output).run world with ⟨result, after⟩
  obtain ⟨last, files, leads, rfl, -⟩ := leads_remap ready ran
  exact leads.config

end Remapper

end ArchiveRemap
