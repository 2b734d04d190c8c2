import ArchiveRemap.Proofs.Remapper.Logged
import ArchiveRemap.Proofs.Remapper.Repeat

/-!
What a remap that fails leaves behind. Every file that is new or changed is the artifact of a
hop that ran to its end, those of the classpath among them: a hop that fails, at whatever step,
takes back what it staged, and so does the copying to the output.
-/

namespace ArchiveRemap

open Run

namespace Remapper

/-- Where a hop of a kind takes its classpath from. -/
def classpathOf (options : HopOptions) (source : Nat) : HopRole → Run (List String)
  | .input => classpathAt source
  | .classpath => pure options.classpath.libraries

end Remapper

open Remapper (classpathOf)

/-- The answer of a hop that ran to its end. It did not find its artifact, renamed the archive
of its call, and stored all that came of the renaming under the key that it began with. -/
def Answer.Completed (answer : Answer) (config : Config) : Prop :=
  ∃ input start report after later last made paths seen,
    let call := answer.call
    let classpath := classpathOf config.options call.source call.kind
    start.remapper.config = config ∧
    start.call call.kind input call.source call.target = call ∧
    (Remapper.makeHop call.kind classpath input call.source call.target).run start =
      (.ok report, after) ∧
    Remapper.Made classpath input call.source call.target start call.key report after later last
      made paths seen answer.content

/-- A later world in which only artifacts have changed, each of them as an answer told. -/
structure World.Grew (world : World) (answers : List Answer) (after : World) : Prop where
  config : after.remapper.config = world.remapper.config
  here : after.files.here = world.files.here
  changed : ∀ place, after.files.file? place ≠ world.files.file? place →
    ∃ answer ∈ answers, answer.cached = false ∧
      place = world.artifactPlace answer.call.key ∧
      after.files.file? place = some answer.content
  completed : ∀ answer ∈ answers, answer.cached = false →
    answer.Completed world.remapper.config

namespace World.Grew

variable {world middle after : World} {answers more : List Answer}

theorem still (config : after.remapper.config = world.remapper.config)
    (here : after.files.here = world.files.here)
    (files : ∀ place, after.files.file? place = world.files.file? place)
    (found : ∀ answer ∈ answers, answer.cached = true) : world.Grew answers after where
  config := config
  here := here
  changed place other := absurd (files place) other
  completed answer member ran := by
    rw [found answer member] at ran
    cases ran

theorem refl (world : World) : world.Grew [] world := still rfl rfl (fun _ => rfl) (by simp)

theorem artifactPlace (grew : world.Grew answers after) (key : ArtifactId) :
    after.artifactPlace key = world.artifactPlace key := by
  have options : after.remapper.options = world.remapper.options :=
    congrArg Config.options grew.config
  rw [World.artifactPlace, World.artifactPlace, options, FileTree.placeOf_of_here grew.here]

theorem trans (first : world.Grew answers middle) (second : middle.Grew more after) :
    world.Grew (answers ++ more) after where
  config := second.config.trans first.config
  here := second.here.trans first.here
  changed place other := by
    by_cases later : after.files.file? place = middle.files.file? place
    · rw [later] at other
      obtain ⟨answer, member, ran, named, held⟩ := first.changed place other
      exact ⟨answer, List.mem_append_left _ member, ran, named, later.trans held⟩
    · obtain ⟨answer, member, ran, named, held⟩ := second.changed place later
      rw [first.artifactPlace] at named
      exact ⟨answer, List.mem_append_right _ member, ran, named, held⟩
  completed := by
    rw [List.forall_mem_append]
    refine ⟨first.completed, ?_⟩
    rw [← first.config]
    exact second.completed

end World.Grew

/-! Runs that change nothing but artifacts. -/

namespace Traced

variable {α β : Type} {config : Config}

def Grows (config : Config) (traced : Traced α) : Prop :=
  ∀ world : World, world.remapper.config = config →
    world.Grew (traced.answers world) (traced.run.run world).2

theorem grows_silent {run : Run α}
    (config_run : ∀ world, (run.run world).2.remapper.config = world.remapper.config)
    (files_run : ∀ world, (run.run world).2.files = world.files) :
    (silent run).Grows config := by
  intro world _
  have files := files_run world
  refine .still (config_run world) (congrArg FileTree.here files) ?_ ?_
  · intro place
    exact congrArg (·.file? place) files
  · intro answer member
    cases member

theorem Grows.bind {first : Traced α} {next : α → Traced β} (begins : first.Grows config)
    (ends : ∀ value, (next value).Grows config) : (first >>= next).Grows config := by
  intro world here
  have middle := begins world here
  rw [answers_bind, bind_run, run_bind]
  rcases ran : first.run.run world with ⟨fault | value, later⟩
  · rw [ran] at middle
    simpa using middle
  · rw [ran] at middle
    exact middle.trans (ends value later (middle.config.trans here))

theorem grows_pure (value : α) : (pure value : Traced α).Grows config :=
  grows_silent (fun _ => rfl) fun _ => rfl

theorem grows_each {step : α → Traced β} (grows : ∀ value, (step value).Grows config)
    (values : List α) : (each step values).Grows config := by
  induction values with
  | nil => exact grows_pure []
  | cons value rest ih => exact (grows value).bind fun _ => ih.bind fun _ => grows_pure _

theorem grows_hops {hop : String → Nat → Nat → Traced HopResult}
    (grows : ∀ input source target, (hop input source target).Grows config)
    (input : String) (source : Nat) (route : List Nat) :
    (hops hop input source route).Grows config := by
  induction route generalizing input source with
  | nil => exact grows_pure []
  | cons target rest ih =>
      exact (grows input source target).bind fun report =>
        (ih report.artifact target).bind fun _ => grows_pure _

section Hop

variable {kind : HopRole} {input : String} {source target : Nat} {key : ArtifactId}
  {made : RenameTable} {paths : List String}

/-- Whether it fails or not, publishing changes at most the artifact of its key. -/
theorem files_of_publishHop {last after : World} {result : Except RequestError HopResult}
    (ran : (changing source target (Remapper.publishHop key made paths input)).run last =
      (result, after)) :
    after.remapper = last.remapper ∧ after.files.here = last.files.here ∧
      ∀ place, (∃ fault, result = .error fault) ∨ place ≠ last.artifactPlace key →
        after.files.file? place = last.files.file? place := by
  rw [run_changing] at ran
  generalize published : last.remapper.options.store.publish key
    (Remapper.renameFile last.remapper.options key.kind made paths input) last.files = outcome
    at ran
  obtain ⟨written, told, files⟩ := outcome
  simp only [Remapper.publishHop, published] at ran
  refine ⟨?_, ?_, ?_⟩
  · cases ran
    rfl
  · cases ran
    exact Store.here_publish published
  · intro place untouched
    have other : (∃ fault, written = .error fault) ∨ place ≠ last.artifactPlace key := by
      refine untouched.imp_left ?_
      rintro ⟨fault, rfl⟩
      cases written with
      | error cause => exact ⟨cause, rfl⟩
      | ok path => cases ran
    cases ran
    exact Store.file?_publish published other

theorem grew_publishHop {world later last : World}
    (keyed : world.remapper.keyOf world.files kind input source target = .ok key)
    (missing : world.remapper.options.store.lookup? world.files key = none)
    (tabled : (table source target).run world = (.ok made, later))
    (derived : (classpathOf world.remapper.options source kind).run later = (.ok paths, last))
    (config : last.remapper.config = world.remapper.config) :
    last.Grew
      (match (changing source target (Remapper.publishHop key made paths input)).run last with
        | (.ok report, after) =>
            [⟨world.call kind input source target, report.cached, after.textAt report.artifact⟩]
        | (.error _, _) => [])
      ((changing source target (Remapper.publishHop key made paths input)).run last).2 := by
  have whole : (Remapper.makeHop kind (classpathOf world.remapper.options source kind) input
      source target).run world =
        (changing source target (Remapper.publishHop key made paths input)).run last := by
    simp only [Remapper.run_makeHop, keyed, missing, tabled, derived]
  rcases ran : (changing source target (Remapper.publishHop key made paths input)).run last with
    ⟨fault | report, after⟩
  · obtain ⟨same, here, files⟩ := files_of_publishHop ran
    exact .still (congrArg Remapper.config same) here (fun place => files place (.inl ⟨fault, rfl⟩))
      (by simp)
  · obtain ⟨same, here, files⟩ := files_of_publishHop ran
    obtain ⟨-, -, artifact, told, seen, content, keeps, renamed, refmaps, stored⟩ :=
      Remapper.publishHop_eq_ok ran
    have options : last.remapper.options = world.remapper.options :=
      congrArg Config.options config
    obtain ⟨-, named⟩ := World.readable_of_keyOf keyed
    have text : after.textAt report.artifact = content := World.textAt_of_read stored
    rw [options] at renamed refmaps
    rw [ran] at whole
    constructor
    · exact congrArg Remapper.config same
    · exact here
    · intro place other
      have place : place = last.artifactPlace key := by
        by_contra apart
        exact other (files place (.inr apart))
      obtain ⟨there, located, -, held⟩ := FileTree.read_eq_ok_iff.mp stored
      have spot : there = last.artifactPlace key := by
        rw [FileTree.eq_placeOf_of_locate located, artifact, World.artifactPlace,
          FileTree.placeOf_of_here here]
      refine ⟨_, List.mem_singleton_self _, told, named ▸ place, ?_⟩
      rw [place, ← spot, held, text]
    · intro answer member _
      rw [List.mem_singleton] at member
      subst member
      rw [config, text]
      exact ⟨input, world, report, after, later, last, made, paths, seen, rfl, rfl, whole,
        ⟨told, named ▸ missing, tabled, derived, keeps, named ▸ renamed, named ▸ refmaps, stored⟩⟩

theorem grows_hop {classpath : Traced (List String)} (grows : classpath.Grows config)
    (same : classpath.run = classpathOf config.options source kind) :
    (hop kind classpath input source target).Grows config := by
  intro world here
  simp only [hop]
  rw [Remapper.run_makeHop]
  cases keyed : world.remapper.keyOf world.files kind input source target with
  | error cause => exact .refl world
  | ok key =>
      simp only []
      cases missing : world.remapper.options.store.lookup? world.files key with
      | some path =>
          simp only [List.nil_append]
          cases told : Remapper.storedRefmaps world.files path with
          | error cause => exact .refl world
          | ok refmaps =>
              refine .still rfl rfl (fun _ => rfl) ?_
              simp [failed, Except.map]
      | none =>
          simp only [after, silent, List.nil_append]
          have config_same := config_table source target world
          rcases tabled : (table source target).run world with ⟨fault | made, later⟩
          all_goals
            rw [tabled] at config_same
            have files := same_files_of_table tabled
            have opening : world.Grew [] later :=
              .still config_same (congrArg FileTree.here files)
                (fun place => congrArg (·.file? place) files) (by simp)
          · exact opening
          · have below := grows later (config_same.trans here)
            simp only []
            rcases derived : classpath.run.run later with ⟨fault | paths, last⟩
            all_goals rw [derived] at below
            · simpa using opening.trans below
            · have sight : (classpathOf world.remapper.options source kind).run later =
                  (.ok paths, last) := by
                have options : world.remapper.options = config.options :=
                  congrArg Config.options here
                rw [options, ← same, derived]
              simp only []
              exact opening.trans (below.trans
                (grew_publishHop keyed missing tabled sight (below.config.trans config_same)))

end Hop

theorem grows_deriveArchive (base : Nat) (route : List Nat) (archive : String) :
    (deriveArchive config.options base route archive).Grows config := by
  have hop (input : String) (source target : Nat) :
      (classpathHop config.options input source target).Grows config :=
    grows_hop (grows_pure _) rfl
  exact (grows_hops hop archive base route).bind fun _ => grows_pure _

theorem grows_classpathFrom (target base : Nat) :
    (classpathFrom config.options target base).Grows config := by
  unfold classpathFrom
  dsimp only
  split_ifs
  · exact grows_pure _
  · exact grows_pure _
  · have routed : (silent (Run.route (.direct base target))).Grows config :=
      grows_silent (fun _ => rfl) fun _ => rfl
    exact routed.bind fun route =>
      (grows_each (grows_deriveArchive base route) _).bind fun _ => grows_pure _

theorem grows_classpathAt (target : Nat) : (classpathAt target).Grows config := by
  intro world here
  have options : world.remapper.options = config.options := congrArg Config.options here
  have based : (silent (ExceptT.mk (pure world.remapper.baseOf))).Grows config :=
    grows_silent (fun _ => rfl) fun _ => rfl
  have ends : (silent (ExceptT.mk (pure world.remapper.baseOf)) >>=
      classpathFrom world.remapper.options target).Grows config := by
    rw [options]
    exact based.bind (grows_classpathFrom target)
  rw [classpathAt, answers_get, get_run]
  exact ends world here

theorem grows_inputHop (input : String) (source target : Nat) :
    (inputHop input source target).Grows config :=
  grows_hop (grows_classpathAt source) (run_classpathAt source)

/-! A whole remap. -/

/-- A copy that fails leaves every file as it was. -/
theorem grew_deliver {request : Request} {file output : String} {world after : World}
    {fault : RequestError}
    (ran : (Remapper.deliver request file output).run world = (.error fault, after)) :
    world.Grew [] after := by
  rw [Remapper.run_deliver] at ran
  rcases delivered : copyFile world.files file output with ⟨cause | done, files⟩
  · rw [delivered] at ran
    cases ran
    rcases copyFile_cases delivered with ⟨-, -, rfl⟩ | ⟨-, -, -, -, -, -, impossible, -⟩
    · exact .still rfl rfl (fun _ => rfl) (by simp)
    · cases impossible
  · rw [delivered] at ran
    cases ran

theorem Grows.bind_error {first : Traced α} {next : α → Traced β} (begins : first.Grows config)
    {world after : World} {fault : RequestError} (here : world.remapper.config = config)
    (failed : (first >>= next).run.run world = (.error fault, after))
    (ends : ∀ value later, later.remapper.config = config →
      (next value).run.run later = (.error fault, after) →
        later.Grew ((next value).answers later) after) :
    world.Grew ((first >>= next).answers world) after := by
  have middle := begins world here
  rw [bind_run, run_bind] at failed
  rw [answers_bind]
  rcases ran : first.run.run world with ⟨cause | value, later⟩
  · rw [ran] at failed middle
    cases failed
    simpa using middle
  · rw [ran] at failed middle
    exact middle.trans (ends value later (middle.config.trans here) failed)

theorem grew_remap {request : Request} {input output : String} {world after : World}
    {fault : RequestError}
    (failed : (Remapper.remap request input output).run world = (.error fault, after)) :
    world.Grew ((remap request input output).answers world) after := by
  rw [← run_remap] at failed
  have routed : (silent (Run.route request)).Grows world.remapper.config :=
    grows_silent (fun _ => rfl) fun _ => rfl
  refine routed.bind_error rfl failed ?_
  intro route later here failed
  rw [answers_get]
  rw [get_run] at failed
  refine (grows_hops grows_inputHop input request.source route).bind_error here failed ?_
  intro reports last there failed
  rw [answers_bind]
  rw [bind_run, run_bind] at failed
  rcases delivered : (silent (Remapper.deliver request (Remapper.lastArtifact input reports)
      output)).run.run last with ⟨cause | done, final⟩
  · rw [delivered] at failed
    cases failed
    exact grew_deliver delivered
  · rw [delivered] at failed
    cases failed

end Traced

namespace World

variable {world after : World} {key : ArtifactId} {content : String}

/-- An artifact that is in the directory of the store. -/
structure Stores (world : World) (key : ArtifactId) (content : String) : Prop where
  root : world.files.isDirectoryAt world.remapper.options.store.root = true
  held : world.files.read (world.remapper.options.store.pathOf key) = .ok content

/-- Unless the path of an artifact says something else, it stands in that directory. -/
theorem stores_iff (named : world.remapper.options.store.root ≠ "")
    (relative : PathText.isAbsolute key.fileName = false) :
    world.Stores key content ↔
      world.files.read (world.remapper.options.store.pathOf key) = .ok content := by
  constructor
  · exact Stores.held
  · intro held
    obtain ⟨place, located, -⟩ := FileTree.read_eq_ok_iff.mp held
    exact ⟨FileTree.isDirectoryAt_of_locate_join named relative located, held⟩

/-- A later world with the same output and all artifacts that there were. What has changed is
the artifact of a hop that ran to its end. -/
structure Spares (world : World) (output : String) (answers : List Answer) (after : World) :
    Prop where
  output : after.files.file? (world.files.placeOf output) =
    world.files.file? (world.files.placeOf output)
  artifacts : ∀ key content, world.Stores key content → after.Stores key content
  changed : ∀ place, after.files.file? place ≠ world.files.file? place →
    ∃ answer ∈ answers, answer.cached = false ∧
      place = world.artifactPlace answer.call.key ∧
      after.files.file? place = some answer.content ∧
      answer.Completed world.remapper.config

theorem Leads.stores {kinds : List HopRole} (leads : world.Leads kinds after)
    (stores : world.Stores key content) : after.Stores key content := by
  constructor
  · rw [leads.options]
    exact leads.files.isDirectoryAt stores.root
  · rw [leads.options]
    exact leads.files.read stores.held

end World

namespace Remapper

variable {request : Request} {input output : String} {world after : World}
  {fault : RequestError}

theorem leads_of_failed_remap (ready : world.Ready)
    (failed : (remap request input output).run world = (.error fault, after)) :
    world.Leads [.input, .classpath] after := by
  obtain ⟨last, files, leads, rfl, rfl | ⟨⟨told, impossible⟩, -⟩⟩ := leads_remap ready failed
  · exact leads
  · cases impossible

/-- Wherever a remap fails, it leaves nothing unfinished. -/
theorem spares_of_failed_remap
    (outside : ∀ key, world.artifactPlace key ≠ world.files.placeOf output)
    (failed : (remap request input output).run world = (.error fault, after)) :
    world.Spares output ((Traced.remap request input output).answers world) after := by
  have grew := Traced.grew_remap failed
  constructor
  case output =>
    by_contra other
    obtain ⟨answer, -, -, place, -⟩ := grew.changed _ other
    exact outside answer.call.key place.symm
  case artifacts =>
    intro key content stores
    exact (leads_of_failed_remap (.inl stores.root) failed).stores stores
  case changed =>
    intro place other
    obtain ⟨answer, member, ran, named, held⟩ := grew.changed place other
    exact ⟨answer, member, ran, named, held, grew.completed answer member ran⟩

/-- The artifact stays, although it cannot be copied. -/
theorem spares_of_failed_remap_undelivered : ∃ fault after,
    (remap (.direct 0 1) "i" "missing/o").run mixinFreeWorld = (.error fault, after) ∧
      after.files.files.length = 2 ∧
      mixinFreeWorld.Spares "missing/o"
        ((Traced.remap (.direct 0 1) "i" "missing/o").answers mixinFreeWorld) after := by
  have checked : (match (remap (.direct 0 1) "i" "missing/o").run mixinFreeWorld with
    | (.ok _, _) => none
    | (.error _, after) => some after.files.files.length) = some 2 := by decide +kernel
  split at checked
  · cases checked
  · rename_i fault after ran
    exact ⟨fault, after, ran, Option.some.inj checked,
      spares_of_failed_remap (Store.placeOf_pathOf_ne rfl (by decide)) ran⟩

end Remapper

end ArchiveRemap
