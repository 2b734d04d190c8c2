import ArchiveRemap.Proofs.Remapper.Answer
import ArchiveRemap.Proofs.Remapper.Steady

/-!
The store beside a log of all answers so far. Each artifact of the store is what some answer
told, and an answer is either what a hop wrote or what was found where an earlier one had put
it. What a hop writes is right if all answers before it are: it can only be wrong for what it
was given.
-/

namespace ArchiveRemap

variable {log : List Answer} {answer : Answer}

/-- How the answers of a log came about. -/
inductive Explained (place : ArtifactId → Place) : List Answer → Prop where
  | none : Explained place []
  | found {log : List Answer} {origin answer : Answer} (earlier : Explained place log)
      (member : origin ∈ log) (same : place origin.call.key = place answer.call.key)
      (content : origin.content = answer.content) (cached : answer.cached = true) :
      Explained place (log ++ [answer])
  | made {log : List Answer} {answer : Answer} (earlier : Explained place log)
      (ran : answer.cached = false) (right : (∀ before ∈ log, before.Right) → answer.Right) :
      Explained place (log ++ [answer])

/-- Answers are right if those that were found are, given that those before them are. -/
theorem Explained.right {place : ArtifactId → Place} (explained : Explained place log)
    (found : ∀ origin ∈ log, ∀ answer ∈ log, place origin.call.key = place answer.call.key →
      origin.content = answer.content → answer.cached = true → origin.Right → answer.Right) :
    ∀ answer ∈ log, answer.Right := by
  induction explained with
  | none => simp
  | @found log origin answer earlier member same content cached ih =>
      have before := ih fun origin member answer among =>
        found origin (List.mem_append_left _ member) answer (List.mem_append_left _ among)
      rw [List.forall_mem_append, List.forall_mem_singleton]
      exact ⟨before, found origin (by simp [member]) answer (by simp) same content cached
        (before origin member)⟩
  | @made log answer earlier ran right ih =>
      have before := ih fun origin member answer among =>
        found origin (List.mem_append_left _ member) answer (List.mem_append_left _ among)
      rw [List.forall_mem_append, List.forall_mem_singleton]
      exact ⟨before, right before⟩

namespace Store

variable {store : Store} {files later : FileTree} {key : ArtifactId} {content : String}

/-- What a store holds is what the answers of a log told. -/
structure Holds (store : Store) (log : List Answer) (files : FileTree) : Prop where
  ready : store.Ready files
  stored : ∀ answer ∈ log, files.read (store.pathOf answer.call.key) = .ok answer.content
  owned : ∀ key content, files.file? (files.placeOf (store.pathOf key)) = some content →
    ∃ origin ∈ log, files.placeOf (store.pathOf origin.call.key) =
      files.placeOf (store.pathOf key) ∧ origin.content = content
  explained : Explained (fun key => files.placeOf (store.pathOf key)) log

namespace Holds

theorem still (holds : store.Holds log files) (here : later.here = files.here)
    (ready : store.Ready later)
    (reads : ∀ key content, files.read (store.pathOf key) = .ok content →
      later.read (store.pathOf key) = .ok content)
    (same : ∀ key, later.file? (files.placeOf (store.pathOf key)) =
      files.file? (files.placeOf (store.pathOf key))) : store.Holds log later where
  ready := ready
  stored answer member := reads _ _ (holds.stored answer member)
  owned key content held := by
    rw [FileTree.placeOf_of_here here, same] at held
    simp only [FileTree.placeOf_of_here here]
    exact holds.owned key content held
  explained := by
    simp only [FileTree.placeOf_of_here here]
    exact holds.explained

/-- A file that is put outside the store changes nothing in it. -/
theorem putFile {place : Place} (holds : store.Holds log files)
    (outside : ∀ key, files.placeOf (store.pathOf key) ≠ place) :
    store.Holds log (files.putFile place content) := by
  have same (key : ArtifactId) : (files.putFile place content).file?
      (files.placeOf (store.pathOf key)) = files.file? (files.placeOf (store.pathOf key)) := by
    rw [FileTree.file?_putFile, if_neg (outside key).symm]
  have ready : store.Ready (files.putFile place content) := by
    rcases holds.ready with root | empty
    · left
      obtain ⟨parent, located, directory⟩ := FileTree.isDirectoryAt_iff.mp root
      exact FileTree.isDirectoryAt_iff.mpr
        ⟨parent, FileTree.locate_putFile.mpr located, directory⟩
    · right
      intro key
      exact (same key).trans (empty key)
  exact holds.still rfl ready (fun key _ held => FileTree.read_putFile_of_ne held (outside key))
    same

theorem snoc_found (holds : store.Holds log files) (cached : answer.cached = true)
    (held : files.read (store.pathOf answer.call.key) = .ok answer.content) :
    store.Holds (log ++ [answer]) files where
  ready := holds.ready
  stored := by
    simp only [List.forall_mem_append, List.forall_mem_singleton]
    exact ⟨holds.stored, held⟩
  owned key content there := by
    obtain ⟨origin, member, same⟩ := holds.owned key content there
    exact ⟨origin, List.mem_append_left _ member, same⟩
  explained := by
    obtain ⟨place, located, -, there⟩ := FileTree.read_eq_ok_iff.mp held
    rw [FileTree.eq_placeOf_of_locate located] at there
    obtain ⟨origin, member, same, content⟩ := holds.owned _ _ there
    exact .found holds.explained member same content cached

section Publish

variable {α : Type} {produce : FileTree → Except ArchiveError String × α} {told : Option α}

/-- Publishing under a key that was not there leaves all other artifacts. -/
theorem publish_error {fault : ArchiveError} (holds : store.Holds log files)
    (missing : store.lookup? files key = none)
    (run : store.publish key produce files = (.error fault, told, later)) :
    store.Holds log later := by
  obtain ⟨keeps, ready⟩ := keeps_publish holds.ready missing run
  exact holds.still keeps.here ready (fun _ _ held => keeps.read held) fun _ =>
    file?_publish run (.inl ⟨fault, rfl⟩)

theorem publish_made {path : String} (holds : store.Holds log files)
    (named : answer.call.key = key) (missing : store.lookup? files key = none)
    (run : store.publish key produce files = (.ok path, told, later))
    (held : later.read (store.pathOf key) = .ok answer.content)
    (ran : answer.cached = false) (right : (∀ before ∈ log, before.Right) → answer.Right) :
    store.Holds (log ++ [answer]) later := by
  obtain ⟨keeps, ready⟩ := keeps_publish holds.ready missing run
  constructor
  · exact ready
  · simp only [List.forall_mem_append, List.forall_mem_singleton, named]
    exact ⟨fun before member => keeps.read (holds.stored before member), held⟩
  · intro other content there
    simp only [keeps.placeOf] at there ⊢
    -- The new artifact is what it holds; every other place is as it was.
    by_cases same : files.placeOf (store.pathOf other) = files.placeOf (store.pathOf key)
    · obtain ⟨place, located, -, written⟩ := FileTree.read_eq_ok_iff.mp held
      rw [FileTree.eq_placeOf_of_locate located, keeps.placeOf, ← same, there] at written
      cases written
      exact ⟨answer, by simp, by rw [named, same], rfl⟩
    · rw [file?_publish run (.inr same)] at there
      obtain ⟨origin, member, owns⟩ := holds.owned other content there
      exact ⟨origin, List.mem_append_left _ member, owns⟩
  · simp only [keeps.placeOf]
    exact .made holds.explained ran right

end Publish

end Holds

end Store

/-- The world after the answers of a log. -/
structure World.Kept (world : World) (log : List Answer) : Prop where
  faithful : world.remapper.Faithful
  holds : world.remapper.options.store.Holds log world.files

theorem World.Kept.ready {world : World} (kept : world.Kept log) : world.Ready :=
  kept.holds.ready

theorem World.Leads.kept {kinds : List HopRole} {world later : World}
    (leads : world.Leads kinds later) (same : later.files = world.files)
    (kept : world.Kept log) : later.Kept log := by
  constructor
  · exact leads.faithful kept.faithful
  · rw [leads.options, same]
    exact kept.holds

/-! What hops read. -/

namespace World

variable {world later : World} {kind : HopRole} {input path text : String}
  {paths texts : List String} {source target : Nat} {key : ArtifactId}

theorem textAt_of_read (held : world.files.read path = .ok text) : world.textAt path = text := by
  rw [textAt, held]
  rfl

theorem map_textAt_of_reads (reads : world.files.Reads paths texts) :
    paths.map world.textAt = texts := by
  induction reads with
  | nil => rfl
  | cons held _ ih => rw [List.map_cons, textAt_of_read held, ih]

/-- All that a hop of a kind reads is there. -/
structure Readable (world : World) (kind : HopRole) (input : String) : Prop where
  input : world.files.read input = .ok (world.textAt input)
  archives : world.files.Reads (world.remapper.config.derivedFrom kind)
    ((world.remapper.config.derivedFrom kind).map world.textAt)
  libraries : world.files.Reads world.remapper.options.classpath.libraries
    (world.remapper.options.classpath.libraries.map world.textAt)

theorem readable_of_keyOf
    (keyed : world.remapper.keyOf world.files kind input source target = .ok key) :
    world.Readable kind input ∧ key = (world.call kind input source target).key := by
  obtain ⟨text, archives, libraries, held, derived, shared, rfl⟩ :=
    Remapper.keyOf_eq_ok_iff.mp keyed
  have input := textAt_of_read held
  have archives := map_textAt_of_reads derived
  have libraries := map_textAt_of_reads shared
  refine ⟨⟨by rwa [input], by rwa [archives], by rwa [libraries]⟩, ?_⟩
  subst input archives libraries
  rfl

/-- In a later world a hop reads what it would have read before. -/
theorem Leads.call {kinds : List HopRole} (leads : world.Leads kinds later)
    (readable : world.Readable kind input) (source target : Nat) :
    later.Readable kind input ∧
      later.call kind input source target = world.call kind input source target := by
  have held := leads.files.read readable.input
  have derived := readable.archives.imp fun _ _ _ => leads.files.read
  have shared := readable.libraries.imp fun _ _ _ => leads.files.read
  rw [← leads.config] at derived
  rw [← leads.options] at shared
  have input := textAt_of_read held
  have archives := map_textAt_of_reads derived
  have libraries : later.remapper.config.options.classpath.libraries.map later.textAt =
      later.remapper.config.options.classpath.libraries.map world.textAt :=
    map_textAt_of_reads shared
  refine ⟨⟨by rwa [input], by rwa [archives], libraries.symm ▸ shared⟩, ?_⟩
  simp only [World.call, input, archives, libraries]
  rw [leads.config]

end World

/-! Runs that keep store and log in step. -/

namespace Traced

open Run

variable {α β : Type} {config : Config} {kinds : List HopRole}

/-- The run tells all that it stores. -/
def Tells (traced : Traced α) (world : World) : Prop :=
  ∀ log, world.Kept log → (traced.run.run world).2.Kept (log ++ traced.answers world)

theorem tells_silent {run : Run α} {world : World}
    (still : ∀ log, world.Kept log → (run.run world).2.Kept log) : (silent run).Tells world := by
  intro log kept
  change (run.run world).2.Kept (log ++ [])
  rw [List.append_nil]
  exact still log kept

theorem Tells.bind {first : Traced α} {next : α → Traced β} {world : World}
    (begins : first.Tells world)
    (ends : ∀ value later, first.run.run world = (.ok value, later) →
      (next value).Tells later) : (first >>= next).Tells world := by
  intro log kept
  have middle := begins log kept
  rw [answers_bind, bind_run, run_bind]
  rcases ran : first.run.run world with ⟨fault | value, later⟩
  · rw [ran] at middle
    simpa only [List.append_nil] using middle
  · rw [ran] at middle
    simp only []
    rw [← List.append_assoc]
    exact ends value later ran _ middle

/-- Under a configuration the run changes nothing but the store, tells all that it stores, and
comes to what is meant unless an answer is wrong. -/
structure Sound (config : Config) (kinds : List HopRole) (means : World → α → World → Prop)
    (traced : Traced α) : Prop where
  steady : Steady kinds traced.run
  tells : ∀ world, world.remapper.config = config → traced.Tells world
  means : ∀ world log, world.remapper.config = config → world.Kept log → ∀ value later,
    traced.run.run world = (.ok value, later) →
    (∀ answer ∈ log ++ traced.answers world, answer.Right) → means world value later

theorem sound_silent {means : World → α → World → Prop} {run : Run α}
    (steady : Steady kinds run) (same : ∀ world, (run.run world).2.files = world.files)
    (comes : ∀ world value later, world.remapper.config = config →
      world.remapper.Faithful → run.run world = (.ok value, later) → means world value later) :
    (silent run).Sound config kinds means where
  steady := steady
  tells world _ := tells_silent fun _ kept => (steady world kept.ready).kept (same world) kept
  means world _ here kept value later ran _ :=
    comes world value later here kept.faithful ran

theorem Sound.bind {first : Traced α} {next : α → Traced β}
    {means : World → α → World → Prop} {goes : α → World → β → World → Prop}
    {comes : World → β → World → Prop} (begins : first.Sound config kinds means)
    (ends : ∀ value, (next value).Sound config kinds (goes value))
    (chain : ∀ world value middle result later, world.remapper.config = config →
      world.Leads kinds middle → middle.Leads kinds later → means world value middle →
      goes value middle result later → comes world result later) :
    (first >>= next).Sound config kinds comes where
  steady := begins.steady.bind fun value => (ends value).steady
  tells world here log kept := (begins.tells world here).bind (fun value later ran =>
    (ends value).tells later
      ((begins.steady.leads kept.ready ran).config.trans here)) log kept
  means world log here kept result later ran right := by
    rw [answers_bind] at right
    rw [bind_run, run_bind] at ran
    have middle := begins.tells world here log kept
    rcases started : first.run.run world with ⟨fault | value, between⟩
    · rw [started] at ran
      cases ran
    · rw [started] at ran middle right
      simp only [] at ran right
      rw [← List.append_assoc] at right
      have leads := begins.steady.leads kept.ready started
      exact chain world value between result later here leads
        ((ends value).steady.leads leads.ready ran)
        (begins.means world log here kept value between started
          (List.forall_mem_append.mp right).1)
        ((ends value).means between _ (leads.config.trans here) middle result later ran right)

/-! Hops. -/

/-- The paths lead to the classpath that a hop of a kind sees. -/
def Sees (kind : HopRole) (source : Nat) (world : World) (paths : List String)
    (later : World) : Prop :=
  ∀ input target, world.Readable kind input → ∃ texts,
    (world.call kind input source target).classpath? = some texts ∧
      later.files.Reads paths texts

/-- The artifact holds what the hop writes if it runs afresh. -/
def Writes (kind : HopRole) (input : String) (source target : Nat) (world : World)
    (report : HopResult) (later : World) : Prop :=
  world.Readable kind input ∧ ∃ content,
    (world.call kind input source target).fresh? = some content ∧
      later.files.read report.artifact = .ok content

variable {kind : HopRole} {input : String} {source target : Nat}

theorem same_files_of_table {world later : World} {result : Except RequestError RenameTable}
    (ran : (table source target).run world = (result, later)) : later.files = world.files :=
  (congrArg (fun done => done.2.files) ran).symm

theorem makeTable_of_table {world later : World} {made : RenameTable}
    (faithful : world.remapper.Faithful)
    (ran : (table source target).run world = (.ok made, later)) :
    makeTable world.remapper.graph world.remapper.catalog.tree source target = .ok made := by
  rw [run_table, Prod.mk.injEq] at ran
  exact (Catalog.table_eq faithful.tables).symm.trans ran.1

/-- What a hop publishes is right if the classpath that it was given is. -/
theorem kept_publishHop {world last : World} {key : ArtifactId} {table : RenameTable}
    {paths : List String} {log : List Answer} (kept : last.Kept log)
    (leads : world.Leads kinds last) (readable : world.Readable kind input)
    (named : key = (world.call kind input source target).key)
    (tabled : makeTable world.remapper.graph world.remapper.catalog.tree source target =
      .ok table)
    (missing : last.remapper.options.store.lookup? last.files key = none)
    (sees : (∀ answer ∈ log, answer.Right) → Sees kind source world paths last) :
    ((changing source target (Remapper.publishHop key table paths input)).run last).2.Kept
      (log ++ match (changing source target (Remapper.publishHop key table paths input)).run
          last with
        | (.ok report, later) =>
            [⟨world.call kind input source target, report.cached, later.textAt report.artifact⟩]
        | (.error _, _) => []) := by
  rw [run_changing]
  generalize published : last.remapper.options.store.publish key
    (Remapper.renameFile last.remapper.options key.kind table paths input) last.files = outcome
  obtain ⟨result, told, files⟩ := outcome
  simp only [Remapper.publishHop, published]
  cases result with
  | error fault =>
      simp only [Except.map, failed, List.append_nil]
      exact ⟨kept.faithful, kept.holds.publish_error missing published⟩
  | ok path =>
      obtain ⟨rfl, seen, content, keeps, renamed, -, stored⟩ := Store.read_publish published
      -- What the producer saw is a later tree, so it read the texts that the call names.
      have text : ∀ notices, World.textAt ⟨last.remapper, files, notices⟩
          (last.remapper.options.store.pathOf key) = content := by
        intro notices
        rw [World.textAt, stored]
        rfl
      simp only [Except.map, failed, text]
      refine ⟨kept.faithful, kept.holds.publish_made named.symm missing published stored rfl
        fun right => ?_⟩
      obtain ⟨texts, classpath, reads⟩ := sees right input target readable
      have written := renameTexts?_of_renameFile (reads.imp fun _ _ _ => keeps.read)
        (keeps.read (leads.files.read readable.input)) renamed
      rw [leads.options, named] at written
      rw [Answer.Right, HopCall.fresh?, classpath]
      change hopText? world.remapper.graph world.remapper.catalog.tree _ source target texts
        (world.textAt input) = some content
      rw [hopText?, tabled]
      exact written

/-- Whatever comes of a hop, the log with what it tells still explains the store. -/
theorem tells_hop {classpath : Traced (List String)} (other : kind ∉ kinds)
    (sound : classpath.Sound config kinds (Sees kind source)) {world : World}
    (here : world.remapper.config = config) :
    (hop kind classpath input source target).Tells world := by
  intro log kept
  simp only [hop]
  rw [Remapper.run_makeHop]
  cases keyed : world.remapper.keyOf world.files kind input source target with
  | error cause => simpa [failed] using kept
  | ok key =>
      obtain ⟨readable, named⟩ := World.readable_of_keyOf keyed
      simp only []
      cases missing : world.remapper.options.store.lookup? world.files key with
      | some path =>
          -- Found: one answer more, nothing written.
          obtain ⟨rfl, content, held⟩ := Store.lookup?_eq_some_iff.mp missing
          simp only [List.nil_append]
          cases told : Remapper.storedRefmaps world.files
              (world.remapper.options.store.pathOf key) with
          | error cause => simpa [failed, Except.map] using kept
          | ok refmaps =>
              refine ⟨kept.faithful, kept.holds.snoc_found rfl ?_⟩
              rw [← named, World.textAt_of_read held]
              exact held
      | none =>
          simp only [after, silent, List.nil_append]
          rcases tabled : (table source target).run world with ⟨fault | made, later⟩
          · have leads : world.Leads kinds later :=
              (steady_table source target).leads kept.ready tabled
            simpa using leads.kept (same_files_of_table tabled) kept
          -- Neither the table nor the hops of the classpath can have made this artifact.
          · have first : world.Leads kinds later :=
              (steady_table source target).leads kept.ready tabled
            have between := first.kept (same_files_of_table tabled) kept
            have below := sound.tells later (first.config.trans here) log between
            simp only []
            rcases derived : classpath.run.run later with ⟨fault | paths, last⟩
            · rw [derived] at below
              simpa using below
            · rw [derived] at below
              have second := first.trans (sound.steady.leads between.ready derived)
              have role := Remapper.kind_of_keyOf keyed
              simp only []
              rw [← List.append_assoc]
              refine kept_publishHop below second readable named
                (makeTable_of_table kept.faithful tabled)
                (second.absent kept.ready (role ▸ other) missing) fun right input target => ?_
              intro readable
              obtain ⟨again, same⟩ := first.call readable source target
              rw [← same]
              exact sound.means later log (first.config.trans here) between paths last derived
                right input target again

/-- The hop's own answer is among those taken to be right, and it tells the artifact. -/
theorem writes_of_hop {classpath : Traced (List String)}
    (steady : Steady kinds classpath.run) {world later : World} {log : List Answer}
    {report : HopResult} (kept : world.Kept log)
    (ran : (hop kind classpath input source target).run.run world = (.ok report, later))
    (right : ∀ answer ∈ log ++ (hop kind classpath input source target).answers world,
      answer.Right) : Writes kind input source target world report later := by
  obtain ⟨key, keyed, -, -, artifact, done⟩ := Remapper.makeHop_eq_ok steady kept.ready ran
  have held : ∃ content, later.files.read report.artifact = .ok content := by
    rcases done with found | ⟨_, _, _, _, _, content, made⟩
    · obtain ⟨-, content, held⟩ := Store.lookup?_eq_some_iff.mp found.there
      rw [found.stays, artifact]
      exact ⟨content, held⟩
    · exact ⟨content, made.stored⟩
  obtain ⟨content, held⟩ := held
  refine ⟨(World.readable_of_keyOf keyed).1, content, ?_, held⟩
  have own : (⟨world.call kind input source target, report.cached,
      later.textAt report.artifact⟩ : Answer) ∈
        log ++ (hop kind classpath input source target).answers world := by
    change (Remapper.makeHop kind classpath.run input source target).run world = _ at ran
    simp [hop, ran]
  have fresh := right _ own
  rwa [Answer.Right, World.textAt_of_read held] at fresh

theorem sound_hop {classpath : Traced (List String)} (other : kind ∉ kinds)
    (sound : classpath.Sound config kinds (Sees kind source)) :
    (hop kind classpath input source target).Sound config (kind :: kinds)
      (Writes kind input source target) where
  steady := Remapper.steady_makeHop sound.steady other
  tells _ here := tells_hop other sound here
  means _ _ _ kept _ _ ran right := writes_of_hop sound.steady kept ran right

end Traced

end ArchiveRemap
