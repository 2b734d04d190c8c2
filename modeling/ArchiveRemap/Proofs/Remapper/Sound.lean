import ArchiveRemap.Proofs.Remapper.Logged

/-!
Hops one after the other, and the classpath that they lead to. All of it is told, and unless an
answer on the way is wrong it is what comes of running everything afresh.
-/

namespace ArchiveRemap

namespace Traced

open Run

variable {config : Config} {kinds : List HopRole}

variable {α β : Type}

theorem sound_pure {means : World → α → World → Prop} (value : α)
    (same : ∀ world, world.remapper.config = config → means world value world) :
    (pure value : Traced α).Sound config kinds means :=
  sound_silent (steady_pure value) (fun _ => rfl) fun world _ _ here _ ran => by
    cases ran
    exact same world here

theorem Sound.map {traced : Traced α} {means : World → α → World → Prop}
    {comes : World → β → World → Prop} (sound : traced.Sound config kinds means) (turn : α → β)
    (turned : ∀ world value later, means world value later → comes world (turn value) later) :
    (traced >>= fun value => pure (turn value)).Sound config kinds comes := by
  have ends (value : α) : (pure (turn value) : Traced β).Sound config kinds
      fun world result later => result = turn value ∧ later = world :=
    sound_pure _ fun _ _ => ⟨rfl, rfl⟩
  apply sound.bind ends
  rintro world value middle result later - - - meant ⟨rfl, rfl⟩
  exact turned world value later meant

theorem sound_get {next : World → Traced β} {comes : World → β → World → Prop}
    (steady : Steady kinds (silent get >>= next).run)
    (ends : ∀ world, world.remapper.config = config →
      (next world).Sound config kinds comes) :
    (silent get >>= next).Sound config kinds comes where
  steady := steady
  tells world here := by
    apply (tells_silent fun _ kept => kept).bind
    intro value later ran
    cases ran
    exact (ends world here).tells world here
  means world log here kept := (ends world here).means world log here kept

/-- What single steps come to, a row of steps comes to one after the other. -/
theorem sound_each {step : α → Traced β} {goes : α → World → β → World → Prop}
    {comes : List α → World → List β → World → Prop}
    (sound : ∀ value, (step value).Sound config kinds (goes value))
    (none : ∀ world, comes [] world [] world)
    (next : ∀ value rest world result middle results later,
      world.Leads kinds middle → middle.Leads kinds later →
      goes value world result middle → comes rest middle results later →
      comes (value :: rest) world (result :: results) later)
    (values : List α) : (each step values).Sound config kinds (comes values) := by
  induction values with
  | nil => exact sound_pure [] fun world _ => none world
  | cons value rest ih =>
      have ends (result : β) :
          (each step rest >>= fun results => pure (result :: results)).Sound config kinds
            fun middle all later => ∃ results, all = result :: results ∧
              comes rest middle results later :=
        ih.map _ fun _ results _ meant => ⟨results, rfl, meant⟩
      apply (sound value).bind ends
      rintro world result middle all later - leads more meant ⟨results, rfl, others⟩
      exact next value rest world result middle results later leads more meant others

/-- What single hops come to, hops along a route come to one after the other. -/
theorem sound_hops {hop : String → Nat → Nat → Traced HopResult}
    {goes : String → Nat → Nat → World → HopResult → World → Prop}
    {comes : String → Nat → List Nat → World → List HopResult → World → Prop}
    (sound : ∀ input source target,
      (hop input source target).Sound config kinds (goes input source target))
    (none : ∀ input source world, comes input source [] world [] world)
    (next : ∀ input source target rest world report middle reports later,
      world.Leads kinds middle → middle.Leads kinds later →
      goes input source target world report middle →
      comes report.artifact target rest middle reports later →
      comes input source (target :: rest) world (report :: reports) later)
    (input : String) (source : Nat) (route : List Nat) :
    (hops hop input source route).Sound config kinds (comes input source route) := by
  induction route generalizing input source with
  | nil => exact sound_pure [] fun world _ => none input source world
  | cons target rest ih =>
      have ends (report : HopResult) :
          (hops hop report.artifact target rest >>= fun reports =>
            pure (report :: reports)).Sound config kinds
            fun middle all later => ∃ reports, all = report :: reports ∧
              comes report.artifact target rest middle reports later :=
        (ih report.artifact target).map _ fun _ reports _ meant => ⟨reports, rfl, meant⟩
      apply (sound input source target).bind ends
      rintro world report middle all later - leads more meant ⟨reports, rfl, others⟩
      exact next input source target rest world report middle reports later leads more meant
        others

/-! The classpath. -/

/-- A path leads to what hops along a route make of an archive of the classpath. -/
def Derives (archive : String) (base : Nat) (route : List Nat) (world : World) (path : String)
    (later : World) : Prop :=
  ∀ text libraries, world.files.read archive = .ok text →
    world.files.Reads world.remapper.options.classpath.libraries libraries →
    ∃ last, derivedText? world.remapper.graph world.remapper.catalog.tree libraries text base
        route = some last ∧ later.files.read path = .ok last

theorem sound_classpathHop (input : String) (source target : Nat) :
    (classpathHop config.options input source target).Sound config [.classpath]
      (Writes .classpath input source target) := by
  have sees : (silent (pure config.options.classpath.libraries)).Sound config []
      (Sees .classpath source) := by
    apply sound_silent (steady_pure _) (fun _ => rfl)
    intro world paths later here _ ran input target readable
    cases ran
    refine ⟨_, rfl, ?_⟩
    have libraries := readable.libraries
    subst here
    exact libraries
  exact sound_hop (by simp) sees

theorem sound_deriveArchive (base : Nat) (route : List Nat) (archive : String) :
    (deriveArchive config.options base route archive).Sound config [.classpath]
      (Derives archive base route) := by
  have along : (hops (classpathHop config.options) archive base route).Sound config [.classpath]
      fun world reports later =>
        Derives archive base route world (Remapper.lastArtifact archive reports) later := by
    refine @sound_hops config [.classpath] _ _ (fun archive base route world reports later =>
      Derives archive base route world (Remapper.lastArtifact archive reports) later)
      sound_classpathHop ?_ ?_ archive base route
    · intro archive base world text libraries held _
      exact ⟨text, rfl, held⟩
    · intro archive base target rest world report middle reports later leads _ writes derives
        text libraries held shared
      -- The hops that follow start from the text that the first one has written.
      obtain ⟨readable, content, fresh, written⟩ := writes
      rw [Remapper.lastArtifact_cons]
      have input := World.textAt_of_read held
      have others := World.map_textAt_of_reads shared
      have again := shared.imp fun _ _ _ => leads.files.read
      rw [← leads.options] at again
      obtain ⟨last, further, there⟩ := derives content libraries written again
      refine ⟨last, ?_, there⟩
      subst input others
      rw [leads.graph, leads.tree] at further
      have hopped : hopText? world.remapper.graph world.remapper.catalog.tree .none base target
          (world.remapper.options.classpath.libraries.map world.textAt)
          (world.textAt archive) = some content := fresh
      rw [derivedText?, hopped]
      exact further
  exact along.map _ fun _ _ _ meant => meant

/-- Paths lead to what hops along a route make of the archives of the classpath. -/
def DerivesAll (base : Nat) (route : List Nat) (archives : List String) (world : World)
    (paths : List String) (later : World) : Prop :=
  ∀ texts libraries, world.files.Reads archives texts →
    world.files.Reads world.remapper.options.classpath.libraries libraries →
    ∃ lasts, (texts.mapM fun text => derivedText? world.remapper.graph
        world.remapper.catalog.tree libraries text base route) = some lasts ∧
      later.files.Reads paths lasts

theorem sound_deriveAll (base : Nat) (route : List Nat) (archives : List String) :
    (each (deriveArchive config.options base route) archives).Sound config [.classpath]
      (DerivesAll base route archives) := by
  apply sound_each (sound_deriveArchive base route)
  · intro world texts libraries reads _
    cases reads
    exact ⟨[], rfl, .nil⟩
  · intro archive archives world path middle paths later leads more derives others texts
      libraries reads shared
    obtain _ | ⟨held, rest⟩ := reads
    obtain ⟨last, first, there⟩ := derives _ libraries held shared
    have again := shared.imp fun _ _ _ => leads.files.read
    rw [← leads.options] at again
    obtain ⟨lasts, second, reads⟩ :=
      others _ libraries (FileTree.Reads.imp rest fun _ _ _ => leads.files.read) again
    rw [leads.graph, leads.tree] at second
    refine ⟨last :: lasts, ?_, .cons (more.files.read there) reads⟩
    rw [List.mapM_cons, first, second]
    rfl

theorem baseOf_eq {remapper other : Remapper} (same : remapper.config = other.config) :
    remapper.baseOf = other.baseOf := by
  have options : remapper.options = other.options := congrArg Config.options same
  have graph : remapper.graph = other.graph := congrArg Config.graph same
  rw [Remapper.baseOf, Remapper.baseOf, options, graph]

theorem baseOf?_of_baseOf {remapper : Remapper} {base : Nat}
    (based : remapper.baseOf = .ok base) :
    baseOf? remapper.graph remapper.options.classpath.namespaceName = some base := by
  unfold Remapper.baseOf at based
  cases named : remapper.options.classpath.namespaceName with
  | some name =>
      rw [named] at based
      simp only [] at based
      rw [baseOf?, based]
      rfl
  | none =>
      rw [named] at based
      cases based
      rfl

theorem sees_of_classpathTexts {world later : World} {target base : Nat} {paths : List String}
    (based : world.remapper.baseOf = .ok base)
    (seen : ∀ input, world.Readable .input input → ∃ texts,
      classpathTexts? world.remapper.graph world.remapper.catalog.tree
        (world.remapper.options.classpath.archives.map world.textAt)
        (world.remapper.options.classpath.libraries.map world.textAt) target base =
          some texts ∧ later.files.Reads paths texts) : Sees .input target world paths later := by
  intro input far readable
  obtain ⟨texts, derived, reads⟩ := seen input readable
  refine ⟨texts, Eq.trans ?_ derived, reads⟩
  change (baseOf? world.remapper.graph
    world.remapper.options.classpath.namespaceName).bind _ = _
  rw [baseOf?_of_baseOf based]
  rfl

/-- The archives of the classpath are derived in another world than the one they are seen in,
which has the same texts, mappings and options. -/
theorem sees_of_derivesAll {world middle later : World} {target base : Nat} {route : List Nat}
    {archives : List String} (leads : world.Leads kinds middle)
    (more : middle.Leads kinds later) (based : world.remapper.baseOf = .ok base)
    (elsewhere : base ≠ target)
    (listed : ¬ world.remapper.options.classpath.archives.isEmpty = true)
    (routed : world.remapper.graph.route (.direct base target) = .ok route)
    (all : DerivesAll base route world.remapper.options.classpath.archives middle archives
      later) :
    Sees .input target world (archives ++ world.remapper.options.classpath.libraries)
      later := by
  apply sees_of_classpathTexts based
  intro input readable
  have shared : middle.files.Reads world.remapper.options.classpath.libraries
      (world.remapper.options.classpath.libraries.map world.textAt) :=
    readable.libraries.imp fun _ _ _ => leads.files.read
  obtain ⟨lasts, made, reads⟩ := all
    (world.remapper.options.classpath.archives.map world.textAt)
    (world.remapper.options.classpath.libraries.map world.textAt)
    (readable.archives.imp fun _ _ _ => leads.files.read) (by rw [leads.options]; exact shared)
  rw [leads.graph, leads.tree] at made
  refine ⟨_, ?_, List.rel_append reads (FileTree.Reads.imp shared fun _ _ _ => more.files.read)⟩
  rw [classpathTexts?, if_neg elsewhere, List.isEmpty_map, if_neg listed, routed]
  change Option.bind (List.mapM _ _) _ = _
  rw [made]
  rfl

theorem sound_classpathFrom (target base : Nat) :
    (classpathFrom config.options target base).Sound config [.classpath]
      fun world paths later => world.remapper.baseOf = .ok base →
        Sees .input target world paths later := by
  have options {world : World} (same : world.remapper.config = config) :
      config.options = world.remapper.options := congrArg Config.options same.symm
  unfold classpathFrom
  dsimp only
  split_ifs with here empty
  · -- The archives are in the right namespace as they are.
    apply sound_pure
    intro world same based
    apply sees_of_classpathTexts based
    intro input readable
    rw [classpathTexts?, if_pos here, options same]
    exact ⟨_, rfl, List.rel_append readable.archives readable.libraries⟩
  · apply sound_pure
    intro world same based
    apply sees_of_classpathTexts based
    intro input readable
    rw [options same] at empty ⊢
    rw [classpathTexts?, if_neg here, List.isEmpty_map, if_pos empty]
    exact ⟨_, rfl, readable.libraries⟩
  · -- Every archive is brought along one route, and the libraries come after them.
    have routed : (silent (Run.route (.direct base target))).Sound config [.classpath]
        fun world route _ => world.remapper.graph.route (.direct base target) = .ok route := by
      apply sound_silent (steady_route _) (fun _ => rfl)
      intro world route later _ known ran
      rw [run_route, Prod.mk.injEq, RouteCache.route_eq known.routes] at ran
      exact ran.1
    have derived (route : List Nat) : (each (deriveArchive config.options base route)
        config.options.classpath.archives >>= fun archives =>
          pure (archives ++ config.options.classpath.libraries)).Sound config [.classpath]
        fun middle paths later => ∃ archives,
          paths = archives ++ config.options.classpath.libraries ∧
            DerivesAll base route config.options.classpath.archives middle archives later :=
      (sound_deriveAll base route _).map _ fun _ archives _ meant => ⟨archives, rfl, meant⟩
    apply routed.bind derived
    rintro world route middle paths later same leads more routed ⟨archives, rfl, all⟩ based
    rw [options same] at empty all ⊢
    exact sees_of_derivesAll leads more based here empty routed all

theorem sound_classpathAt (target : Nat) :
    (classpathAt target).Sound config [.classpath] (Sees .input target) := by
  have steady : Steady [.classpath] (classpathAt target).run := by
    rw [run_classpathAt]
    exact Remapper.steady_classpathAt target
  apply sound_get steady
  intro here same
  have based : (silent (ExceptT.mk (pure here.remapper.baseOf))).Sound config [.classpath]
      fun world base later => world.remapper.baseOf = .ok base ∧ later = world := by
    apply sound_silent (fun _ => .refl) (fun _ => rfl)
    intro world base later there _ ran
    rw [run_mk_pure, Prod.mk.injEq, baseOf_eq (same.trans there.symm)] at ran
    exact ⟨ran.1, ran.2.symm⟩
  have options : here.remapper.options = config.options := congrArg Config.options same
  rw [options]
  apply based.bind (sound_classpathFrom target)
  rintro world base middle paths later - - - ⟨based, rfl⟩ sees
  exact sees based

theorem sound_inputHop (input : String) (source target : Nat) :
    (inputHop input source target).Sound config [.input, .classpath]
      (Writes .input input source target) :=
  sound_hop (by simp) (sound_classpathAt source)

/-! Remapping. -/

theorem kept_deliver {world : World} {log : List Answer} {request : Request}
    {file output : String} (outside : ∀ key, world.artifactPlace key ≠ world.files.placeOf output)
    (kept : world.Kept log) :
    ((Remapper.deliver request file output).run world).2.Kept log := by
  constructor
  · exact kept.faithful
  · rw [Remapper.run_deliver]
    generalize copied : copyFile world.files file output = outcome
    obtain ⟨result, files⟩ := outcome
    rcases copyFile_cases copied with ⟨-, -, rfl⟩ | ⟨_, content, place, -, -, located, -, rfl⟩
    · exact kept.holds
    · rw [← FileTree.eq_placeOf_of_locate located] at outside
      exact kept.holds.putFile outside

/-- A remap to an output outside the store tells all that it stores. -/
theorem tells_remap {world : World} (request : Request) (input output : String)
    (outside : ∀ key, world.artifactPlace key ≠ world.files.placeOf output) :
    (remap request input output).Tells world := by
  intro log kept
  have along (route : List Nat) : (hops inputHop input request.source route).Sound
      world.remapper.config [.input, .classpath] fun _ _ _ => True :=
    @sound_hops _ _ _ _ (fun _ _ _ _ _ _ => True) sound_inputHop (fun _ _ _ => trivial)
      (fun _ _ _ _ _ _ _ _ _ _ _ _ _ => trivial) input request.source route
  refine Tells.bind (tells_silent fun _ still => ?_) (fun route later ran => ?_) log kept
  · have leads : world.Leads [] ((Run.route request).run world).2 :=
      steady_route request world still.ready
    exact leads.kept rfl still
  have first : world.Leads [.input, .classpath] later :=
    (steady_route request).leads kept.ready ran
  apply Tells.bind (tells_silent fun _ still => still)
  intro here same got
  cases got
  apply Tells.bind ((along route).tells later first.config)
  intro reports last hopped
  have leads := first.trans ((along route).steady.leads first.ready hopped)
  refine Tells.bind (tells_silent fun _ still => kept_deliver (fun key => ?_) still)
    fun _ _ _ => tells_silent fun _ still => still
  rw [leads.artifactPlace, leads.files.placeOf]
  exact outside key

end Traced

end ArchiveRemap
