import ArchiveRemap.Proofs.Mixin.Run
import ArchiveRemap.Proofs.Mixin.Symbols

/-!
Every symbol of a mixin class is accounted for. The tasks of a class are taken in three
places, by tests that no two of them pass together and that each task passes once. So what
a class finds in a hop is what its symbols find, each in the scope of its task.
-/

namespace ArchiveRemap.Mixin

/-! Findings in what comes out. -/

theorem isSome_get?_foldl_addEntry {findings : List Finding} {entries : ClassEntries}
    {key : String} :
    ((findings.foldl Finding.addEntry entries).get? key).isSome ↔
      (∃ value, Finding.entry key value ∈ findings) ∨ (entries.get? key).isSome := by
  induction findings generalizing entries with
  | nil => simp
  | cons finding rest ih =>
      rw [List.foldl_cons, ih]
      cases finding with
      | entry symbol value =>
          by_cases hit : symbol = key
          · subst hit
            simp [Finding.addEntry, Dictionary.get?_insert]
          · simp [Finding.addEntry, Dictionary.get?_insert, hit, Ne.symm hit]
      | rename kind member name => simp [Finding.addEntry]
      | warning reported => simp [Finding.addEntry]

theorem isSome_get?_foldl_addRename {findings : List Finding} {renames : Renames}
    {kind : MemberKind} {member : MemberRef} :
    ((findings.foldl Finding.addRename renames).get? (kind, member)).isSome ↔
      (∃ name, Finding.rename kind member name ∈ findings) ∨
        (renames.get? (kind, member)).isSome := by
  induction findings generalizing renames with
  | nil => simp
  | cons finding rest ih =>
      rw [List.foldl_cons, ih]
      cases finding with
      | entry symbol value => simp [Finding.addRename]
      | rename otherKind other name =>
          by_cases hit : (otherKind, other) = (kind, member)
          · cases hit
            simp [Finding.addRename, Keyed.get?_put]
          · have apart : ¬ (kind = otherKind ∧ member = other) := fun same =>
              hit (by rw [same.1, same.2])
            simp [Finding.addRename, Keyed.get?_put, hit]
            grind
      | warning reported => simp [Finding.addRename]

theorem mem_noticesOf {findings : List Finding} {reported : Warning} :
    Notice.symbol reported ∈ noticesOf findings ↔ Finding.warning reported ∈ findings := by
  induction findings with
  | nil => simp [noticesOf]
  | cons finding rest ih =>
      rw [noticesOf] at ih ⊢
      cases finding <;> simp [List.filterMap_cons, Finding.notice?, ih]

/-! The findings of a class. -/

theorem mem_taken {wanted : Task → Bool} {tasks : List Task} {task : Task} :
    task ∈ (takeTasks wanted tasks).1 ↔ task ∈ tasks ∧ wanted task = true := by
  simp only [takeTasks, List.mem_append, List.mem_filter]
  cases task.runsFirst <;> simp

theorem mem_left {wanted : Task → Bool} {tasks : List Task} {task : Task} :
    task ∈ (takeTasks wanted tasks).2 ↔ task ∈ tasks ∧ wanted task = false := by
  simp [takeTasks]

namespace Scope

variable {scope : Scope} {tasks : List Task} {finding : Finding}

theorem mem_targetFindings :
    finding ∈ targetFindings scope tasks ↔ ∃ task ∈ tasks, task.runsFirst = true ∧
      ∃ symbol ∈ task.symbols, finding ∈ scope.symbolFindings symbol := by
  rw [targetFindings, List.mem_flatMap]
  refine exists_congr fun task => and_congr_right fun _ => ?_
  cases task with
  | mixinTargets names =>
      have same := scope.targetFindings_eq names
      simp only [targetFindings, List.flatMap_cons, List.flatMap_nil, List.append_nil] at same
      simp only [same, List.mem_flatMap, Task.runsFirst, true_and]
  | _ => simp [Task.runsFirst]

theorem mem_hardFindings :
    finding ∈ scope.hardFindings tasks ↔ ∃ task ∈ tasks, task.isHard = true ∧
      ∃ symbol ∈ task.symbols, finding ∈ scope.symbolFindings symbol := by
  rw [hardFindings, List.mem_flatMap]
  refine exists_congr fun task => and_congr_right fun _ => ?_
  cases hard : task.isHard with
  | true => rw [scope.hardTaskFindings_eq hard, List.mem_flatMap, eq_self, true_and]
  | false => cases task <;> simp_all [Task.isHard, hardTaskFindings]

theorem mem_softFindings :
    finding ∈ scope.softFindings tasks ↔
      ∃ task ∈ tasks, (task.runsFirst = false ∧ task.isHard = false) ∧
        ∃ symbol ∈ task.symbols, finding ∈ scope.symbolFindings symbol := by
  rw [softFindings, List.mem_flatMap]
  refine exists_congr fun task => and_congr_right fun _ => ?_
  by_cases soft : task.runsFirst = false ∧ task.isHard = false
  · rw [scope.softTaskFindings_eq soft.1 soft.2, List.mem_flatMap, eq_true soft, true_and]
  · cases task <;> simp_all [Task.isHard, Task.runsFirst, softTaskFindings]

end Scope

namespace Hop

variable {hop : Hop} {work : MixinWork} {finding : Finding}

/-- The scope in which a task is resolved: string targets are resolved before the class has
its targets. -/
def scopeFor (hop : Hop) (work : MixinWork) (task : Task) : Scope :=
  hop.scope work.className (if task.runsFirst then [] else (hop.prepared work).targets)

theorem scopeFor_of_first {task : Task} (first : task.runsFirst = true) :
    hop.scopeFor work task = hop.scope work.className [] := by
  rw [scopeFor, if_pos first]

theorem scopeFor_of_later {task : Task} (later : task.runsFirst = false) :
    hop.scopeFor work task = hop.scope work.className (hop.prepared work).targets := by
  rw [scopeFor, if_neg (by simp [later])]

theorem runsFirst_of_isHard {task : Task} (hard : task.isHard = true) :
    task.runsFirst = false := by
  cases task <;> first | rfl | cases hard

theorem mem_early :
    finding ∈ hop.early work ↔
      ∃ task ∈ work.tasks, (task.runsFirst = true ∨ task.isHard = true) ∧
        ∃ symbol ∈ task.symbols, finding ∈ (hop.scopeFor work task).symbolFindings symbol := by
  rw [early, processClass, List.mem_append, Scope.mem_targetFindings, Scope.mem_hardFindings]
  simp only [mem_taken, mem_left]
  constructor
  · rintro (⟨task, ⟨known, first⟩, -, found⟩ | ⟨task, ⟨⟨known, later⟩, hard⟩, -, found⟩)
    · exact ⟨task, known, .inl first, by rwa [scopeFor_of_first first]⟩
    · exact ⟨task, known, .inr hard, by rwa [scopeFor_of_later later]⟩
  · rintro ⟨task, known, first | hard, found⟩
    · rw [scopeFor_of_first first] at found
      exact .inl ⟨task, ⟨known, first⟩, first, found⟩
    · have later := runsFirst_of_isHard hard
      rw [scopeFor_of_later later] at found
      exact .inr ⟨task, ⟨⟨known, later⟩, hard⟩, hard, found⟩

theorem mem_late :
    finding ∈ hop.late work ↔
      ∃ task ∈ work.tasks, (task.runsFirst = false ∧ task.isHard = false) ∧
        ∃ symbol ∈ task.symbols, finding ∈ (hop.scopeFor work task).symbolFindings symbol := by
  rw [late, finishClass, Scope.mem_softFindings]
  simp only [mem_taken, prepared, processClass, mem_left, and_true]
  constructor
  · rintro ⟨task, ⟨⟨known, -⟩, -⟩, soft, found⟩
    exact ⟨task, known, soft, by rwa [scopeFor_of_later soft.1]⟩
  · rintro ⟨task, known, soft, found⟩
    rw [scopeFor_of_later soft.1] at found
    exact ⟨task, ⟨⟨known, soft.1⟩, soft.2⟩, soft, found⟩

/-- What a class finds is what its symbols find. -/
theorem mem_findings :
    finding ∈ hop.early work ∨ finding ∈ hop.late work ↔
      ∃ task ∈ work.tasks, ∃ symbol ∈ task.symbols,
        finding ∈ (hop.scopeFor work task).symbolFindings symbol := by
  rw [mem_early, mem_late]
  constructor
  · rintro (⟨task, known, -, found⟩ | ⟨task, known, -, found⟩) <;> exact ⟨task, known, found⟩
  · rintro ⟨task, known, found⟩
    by_cases soft : task.runsFirst = false ∧ task.isHard = false
    · exact .inr ⟨task, known, soft, found⟩
    · refine .inl ⟨task, known, ?_, found⟩
      cases first : task.runsFirst <;> cases hard : task.isHard <;> simp_all

theorem covers_task {task : Task} {symbol : Symbol} (member : symbol ∈ task.symbols) :
    Covers work.className hop.renamer symbol
      ((hop.scopeFor work task).symbolFindings symbol) :=
  @Scope.covers_symbol (hop.scopeFor work task) task symbol member

/-! The references of a class. -/

theorem keys_of_isHard {symbol : Symbol} (hard : symbol.isHard = true) :
    symbol.keys = [] ∧ symbol.capitals = [] := by
  cases symbol <;> first | exact ⟨rfl, rfl⟩ | cases hard

theorem isHard_of_member? {symbol : Symbol} {className : String}
    {carrier : MemberKind × MemberRef} (carried : symbol.member? className = some carrier) :
    symbol.isHard = true := by
  cases symbol <;> first | rfl | cases carried

/-- The symbols of a task are hard where the task is. -/
theorem isHard_of_mem_symbols {task : Task} {symbol : Symbol} (asked : symbol ∈ task.symbols) :
    symbol.isHard = task.isHard := by
  cases task <;> simp only [Task.symbols, List.mem_map, List.mem_append, List.mem_singleton]
    at asked <;> grind [Symbol.isHard, Task.isHard]

theorem entry_not_mem_hardFindings (scope : Scope) (tasks : List Task) (key value : String) :
    Finding.entry key value ∉ scope.hardFindings tasks := by
  intro found
  obtain ⟨task, -, hard, symbol, asked, found⟩ := Scope.mem_hardFindings.mp found
  obtain ⟨keyless, small⟩ := keys_of_isHard ((isHard_of_mem_symbols asked).trans hard)
  have keyed := (Scope.covers_symbol asked).keyed key value found
  rw [keyless, small] at keyed
  exact keyed.elim List.not_mem_nil List.not_mem_nil

theorem isSome_references (fresh : work.entries = .empty) {key : String} :
    ((hop.references work).get? key).isSome ↔
      ∃ value, .entry key value ∈ hop.early work ∨ .entry key value ∈ hop.late work := by
  have early : ((hop.prepared work).entries.get? key).isSome ↔
      ∃ value, .entry key value ∈ hop.early work := by
    simp only [prepared, early, processClass, List.mem_append, entry_not_mem_hardFindings,
      or_false]
    rw [isSome_get?_foldl_addEntry, fresh, Dictionary.get?_empty]
    simp
  have finished : hop.references work =
      (hop.late work).foldl Finding.addEntry (hop.prepared work).entries := rfl
  rw [finished, isSome_get?_foldl_addEntry, early, ← exists_or]
  exact exists_congr fun value => or_comm

theorem isSome_foldl_addRenames {works : List MixinWork} {renames : Renames}
    {kind : MemberKind} {member : MemberRef} :
    ((works.foldl hop.addRenames renames).get? (kind, member)).isSome ↔
      (∃ work ∈ works, ∃ name, .rename kind member name ∈ hop.early work) ∨
        (renames.get? (kind, member)).isSome := by
  induction works generalizing renames with
  | nil => simp
  | cons work rest ih =>
      rw [List.foldl_cons, ih, addRenames, isSome_get?_foldl_addRename]
      simp only [List.mem_cons, exists_eq_or_imp]
      rw [or_left_comm, or_assoc]

end Hop

/-! The accounts of a hop. -/

namespace Symbol

/-- A reference under a key of the symbol is in the file of its class, or the member that
carries the symbol has a new name. -/
def Recorded (hop : Hop) (state : HopState) (className : String) (symbol : Symbol) : Prop :=
  (∃ entries, state.refmaps.class? (hop.inputs.fileFor className) className = some entries ∧
      ∃ key ∈ symbol.keys, (entries.get? key).isSome) ∨
    ∃ kind member, symbol.member? className = some (kind, member) ∧
      (state.renames.get? (kind, member)).isSome

/-- A warning names the class and the symbol as unresolved or ambiguous. -/
def Reported (state : HopState) (className : String) (symbol : Symbol) : Prop :=
  ∃ reason : WarningReason, reason.isFailure = true ∧
    Notice.symbol ⟨className, symbol.label, symbol.text, reason⟩ ∈ state.notices

end Symbol

namespace Hop

variable {hop : Hop} {nodes : List ClassNode} {node : ClassNode} {work : MixinWork}

theorem class?_run_of_key (distinct : (nodes.map (·.name)).Nodup) (member : node ∈ nodes)
    (mixin : contextOf? hop.registry node = some work) {key : String}
    (found : ((hop.references work).get? key).isSome) :
    (hop.run nodes).refmaps.class? (hop.inputs.fileFor node.name) node.name =
      some (hop.references work) := by
  have filled : (hop.references work).isEmpty = false :=
    Dictionary.isEmpty_eq_false_iff.mpr ⟨key, found⟩
  rw [class?_run hop distinct member mixin, if_pos ⟨rfl, filled⟩]

theorem isSome_renames_run (distinct : (nodes.map (·.name)).Nodup) (member : node ∈ nodes)
    (mixin : contextOf? hop.registry node = some work) {kind : MemberKind} {ref : MemberRef}
    {name : String} (renamed : .rename kind ref name ∈ hop.early work) :
    ((hop.run nodes).renames.get? (kind, ref)).isSome := by
  obtain ⟨contexts, run⟩ := runIn_spec hop (List.Perm.refl nodes) distinct
  rw [run_eq_runIn, run, isSome_foldl_addRenames]
  have ours : work ∈ byName (hop.mixins nodes) :=
    (byName_perm _).mem_iff.mpr (mem_mixins.mpr ⟨node, member, mixin⟩)
  exact .inl ⟨work, ours, name, renamed⟩

theorem mem_notices_run (distinct : (nodes.map (·.name)).Nodup) (member : node ∈ nodes)
    (mixin : contextOf? hop.registry node = some work) {reported : Warning}
    (warned : .warning reported ∈ hop.early work ∨ .warning reported ∈ hop.late work) :
    .symbol reported ∈ (hop.run nodes).notices := by
  obtain ⟨contexts, run⟩ := runIn_spec hop (List.Perm.refl nodes) distinct
  have ours : work ∈ hop.mixins nodes := mem_mixins.mpr ⟨node, member, mixin⟩
  rw [run_eq_runIn, run]
  simp only [List.mem_append, List.mem_flatMap]
  rcases warned with early | late
  · exact .inl (.inr ⟨work, (byName_perm _).mem_iff.mpr ours, mem_noticesOf.mpr early⟩)
  · exact .inr ⟨work, ours, mem_noticesOf.mpr late⟩

/-- A finding that settles a symbol comes out as its record or its warning. -/
theorem recorded_or_reported (distinct : (nodes.map (·.name)).Nodup) (member : node ∈ nodes)
    (mixin : contextOf? hop.registry node = some work) {task : Task} (known : task ∈ work.tasks)
    {symbol : Symbol} (asked : symbol ∈ task.symbols) {finding : Finding}
    (found : finding ∈ (hop.scopeFor work task).symbolFindings symbol)
    (settles : Settles work.className symbol finding) :
    symbol.Recorded hop (hop.run nodes) node.name ∨
      symbol.Reported (hop.run nodes) node.name := by
  have name := className_of_contextOf? mixin
  have comes := mem_findings.mpr ⟨task, known, symbol, asked, found⟩
  cases settles with
  | @entry key value ours =>
      have there := (isSome_references (entries_of_contextOf? mixin)).mpr ⟨value, comes⟩
      exact .inl (.inl ⟨_, class?_run_of_key distinct member mixin there, key, ours, there⟩)
  | @rename kind ref new ours =>
      have hard := (isHard_of_mem_symbols asked).symm.trans (isHard_of_member? ours)
      have early := mem_early.mpr ⟨task, known, .inr hard, symbol, asked, found⟩
      exact .inl (.inr ⟨kind, ref, name ▸ ours, isSome_renames_run distinct member mixin early⟩)
  | @warning reason failed =>
      rw [name] at comes
      exact .inr ⟨reason, failed, mem_notices_run distinct member mixin comes⟩

/-- Every symbol of a mixin class is recorded or reported, or it is a descriptor that the
table leaves alone. Every key of the class comes from one of its symbols, and a class with
hard symbols only has no references. -/
theorem symbols_accounted (hop : Hop) (distinct : (nodes.map (·.name)).Nodup)
    (member : node ∈ nodes) (mixin : contextOf? hop.registry node = some work) :
    (∀ symbol ∈ work.symbols,
      symbol.Recorded hop (hop.run nodes) node.name ∨
        symbol.Reported (hop.run nodes) node.name ∨ symbol.Untouched hop.renamer) ∧
    (∀ file entries, (hop.run nodes).refmaps.class? file node.name = some entries →
      ∀ key, (entries.get? key).isSome →
        ∃ symbol ∈ work.symbols, key ∈ symbol.keys ∨ key ∈ symbol.capitals) ∧
    ((∀ symbol ∈ work.symbols, symbol.isHard = true) →
      ∀ file, (hop.run nodes).refmaps.class? file node.name = none) := by
  have keyed : ∀ key, ((hop.references work).get? key).isSome →
      ∃ symbol ∈ work.symbols, key ∈ symbol.keys ∨ key ∈ symbol.capitals := by
    intro key found
    obtain ⟨value, comes⟩ := (isSome_references (entries_of_contextOf? mixin)).mp found
    obtain ⟨task, known, symbol, asked, stands⟩ := mem_findings.mp comes
    exact ⟨symbol, List.mem_flatMap.mpr ⟨task, known, asked⟩,
      (covers_task asked).keyed key value stands⟩
  refine ⟨fun symbol ours => ?_, fun file entries held => ?_, fun hard file => ?_⟩
  · obtain ⟨task, known, asked⟩ := List.mem_flatMap.mp ours
    rcases (covers_task asked).settled with ⟨finding, found, settles⟩ | silent
    · exact (recorded_or_reported distinct member mixin known asked found settles).imp_right .inl
    · exact .inr (.inr silent)
  · rw [class?_run hop distinct member mixin] at held
    split at held
    · cases held
      exact keyed
    · cases held
  · rw [class?_run hop distinct member mixin, if_neg]
    rintro ⟨-, filled⟩
    rw [Dictionary.isEmpty, List.isEmpty_eq_false_iff] at filled
    obtain ⟨⟨key, value⟩, inside⟩ := List.exists_mem_of_ne_nil _ filled
    have found : ((hop.references work).get? key).isSome :=
      Option.isSome_of_eq_some (Dictionary.mem_entries_iff.mp inside)
    obtain ⟨symbol, ours, stands⟩ := keyed key found
    obtain ⟨keyless, small⟩ := keys_of_isHard (hard symbol ours)
    rw [keyless, small] at stands
    exact stands.elim List.not_mem_nil List.not_mem_nil

/-! A mixin with a string target and a method that overwrites one of the target. -/

def overwritingMixin : ClassNode :=
  { name := "m/M", access := 0, superName := none, interfaces := []
    annotations := [⟨"Lorg/spongepowered/asm/mixin/Mixin;",
      [("targets", .array [.string "a.B"])]⟩]
    fields := []
    methods := [⟨0, "tick", "()V", [⟨"Lorg/spongepowered/asm/mixin/Overwrite;", []⟩]⟩] }

def overwritingWork : MixinWork :=
  ⟨"m/M", [], [.mixinTargets ["a.B"], .overwrite "tick" "()V"], .empty⟩

def overwritingHop : Hop :=
  ⟨.standard false, .standard, .empty "refmap.json",
    ⟨.empty "official" "named", .ofNodes [overwritingMixin]⟩⟩

theorem symbols_accounted_overwriting :
    (∀ symbol ∈ overwritingWork.symbols,
      symbol.Recorded overwritingHop (overwritingHop.run [overwritingMixin]) "m/M" ∨
        symbol.Reported (overwritingHop.run [overwritingMixin]) "m/M" ∨
        symbol.Untouched overwritingHop.renamer) ∧
    (∀ file entries,
      (overwritingHop.run [overwritingMixin]).refmaps.class? file "m/M" = some entries →
      ∀ key, (entries.get? key).isSome →
        ∃ symbol ∈ overwritingWork.symbols, key ∈ symbol.keys ∨ key ∈ symbol.capitals) ∧
    ((∀ symbol ∈ overwritingWork.symbols, symbol.isHard = true) →
      ∀ file, (overwritingHop.run [overwritingMixin]).refmaps.class? file "m/M" = none) :=
  symbols_accounted overwritingHop (by decide) List.mem_cons_self rfl

end Hop

end ArchiveRemap.Mixin
