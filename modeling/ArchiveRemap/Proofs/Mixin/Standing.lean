import Mathlib.Data.List.Nodup
import ArchiveRemap.Proofs.Mixin.Accounted
import ArchiveRemap.Proofs.Mixin.KnownMember

/-!
Members of a mixin class that stand for members of its targets. A hard task gives such a member
a name of its own, whatever the table says about it: the marker of the member, if its name
carries it, and the new name of the member that it stands for.
-/

namespace ArchiveRemap.Mixin

/-! Hard tasks and the members that ask for them. -/

namespace Task

/-- The member that a hard task gives a new name to. -/
def carrier? : Task → Option (MemberKind × Signature)
  | .shadow kind name desc _ => some (kind, ⟨name, desc⟩)
  | .overwrite name desc => some (.method, ⟨name, desc⟩)
  | _ => none

/-- What may stand in front of the name that is looked up. -/
def marker : Task → String
  | .shadow _ _ _ marker => marker
  | _ => ""

end Task

/-- The tasks that one member of a class asks for. -/
def tasksOf (registry : Registry) (kind : MemberKind) (remap : Bool) (member : MemberNode) :
    List Task :=
  match kind with
  | .field => memberTasks registry .onField fieldTasks remap member
  | .method => memberTasks registry .onMethod methodTasks remap member

/-- The hard ones among them, none if the class is no mixin. -/
def hardTasksOf (registry : Registry) (node : ClassNode) (kind : MemberKind)
    (member : MemberNode) : List Task :=
  match mixinNote? registry node with
  | some note => (tasksOf registry kind (note.remap true) member).filter Task.isHard
  | none => []

theorem soft_of_mem_methodTargetTasks {name : String} {note : AnnotationNode} {task : Task}
    (asked : task ∈ methodTargetTasks name note) : task.isHard = false := by
  unfold methodTargetTasks at asked
  split at asked
  · cases asked
  · rw [List.mem_singleton.mp asked]
    rfl

theorem soft_of_mem_injectionPointTasks {name : String} {remap : Bool} {point : AnnotationNode}
    {task : Task} (asked : task ∈ injectionPointTasks name remap point) :
    task.isHard = false := by
  unfold injectionPointTasks at asked
  split at asked
  · split at asked
    · cases asked
    · rw [List.mem_singleton.mp asked]
      rfl
  · cases asked

theorem soft_of_mem_sliceTasks {remap : Bool} {slice : AnnotationNode} {task : Task}
    (asked : task ∈ sliceTasks remap slice) : task.isHard = false := by
  obtain ⟨point, -, inside⟩ := List.mem_flatMap.mp asked
  exact soft_of_mem_injectionPointTasks inside

theorem carrier?_of_mem_fieldTasks {rule : Rule} {note : AnnotationNode} {member : MemberNode}
    {remap : Bool} {task : Task} (asked : task ∈ fieldTasks rule note member remap) :
    task.carrier? = some (.field, ⟨member.name, member.desc⟩) := by
  unfold fieldTasks at asked
  split at asked
  · split at asked
    · rw [List.mem_singleton.mp asked]
      rfl
    · cases asked
  · cases asked

theorem carrier?_of_mem_methodTasks {rule : Rule} {note : AnnotationNode} {member : MemberNode}
    {remap : Bool} {task : Task} (asked : task ∈ methodTasks rule note member remap)
    (hard : task.isHard = true) :
    task.carrier? = some (.method, ⟨member.name, member.desc⟩) := by
  have soft : task.isHard ≠ false := by simp [hard]
  unfold methodTasks at asked
  split at asked
  case h_1 =>
    rcases List.mem_append.mp asked with front | slices
    · rcases List.mem_append.mp front with targets | points
      · split at targets
        · exact absurd (soft_of_mem_methodTargetTasks targets) soft
        · cases targets
      · obtain ⟨point, -, inside⟩ := List.mem_flatMap.mp points
        exact absurd (soft_of_mem_injectionPointTasks inside) soft
    · obtain ⟨slice, -, inside⟩ := List.mem_flatMap.mp slices
      exact absurd (soft_of_mem_sliceTasks inside) soft
  case h_2 =>
    split at asked
    · exact absurd (soft_of_mem_methodTargetTasks asked) soft
    · cases asked
  case h_7 => cases asked
  all_goals
    split at asked
    · cases List.mem_singleton.mp asked
      first | rfl | cases hard
    · cases asked

/-- A hard task renames the member that asks for it. -/
theorem carrier?_of_mem_tasksOf {registry : Registry} {kind : MemberKind} {remap : Bool}
    {member : MemberNode} {task : Task} (asked : task ∈ tasksOf registry kind remap member)
    (hard : task.isHard = true) :
    task.carrier? = some (kind, ⟨member.name, member.desc⟩) := by
  cases kind with
  | field =>
      obtain ⟨note, -, inside⟩ := List.mem_flatMap.mp asked
      split at inside
      · exact carrier?_of_mem_fieldTasks inside
      · cases inside
  | method =>
      obtain ⟨note, -, inside⟩ := List.mem_flatMap.mp asked
      split at inside
      · exact carrier?_of_mem_methodTasks inside hard
      · cases inside

theorem mem_hardTasksOf {registry : Registry} {node : ClassNode} {note : AnnotationNode}
    (noted : mixinNote? registry node = some note) {kind : MemberKind} {member : MemberNode}
    {task : Task} : task ∈ hardTasksOf registry node kind member ↔
      task ∈ tasksOf registry kind (note.remap true) member ∧ task.isHard = true := by
  simp only [hardTasksOf, noted, List.mem_filter]

/-- A member of a class that asks for one hard task, and that is the only one of its kind with
its name and descriptor. -/
structure Standing (registry : Registry) (node : ClassNode) (kind : MemberKind)
    (member : MemberNode) (task : Task) : Prop where
  listed : member ∈ node.members kind
  alone : ∀ other ∈ node.members kind, other.name = member.name → other.desc = member.desc →
    other = member
  asked : hardTasksOf registry node kind member = [task]

/-- The hard tasks of a class are those of its members. -/
theorem mem_hard_tasks {registry : Registry} {node : ClassNode} {work : MixinWork}
    (mixin : contextOf? registry node = some work) {task : Task} :
    task ∈ work.tasks ∧ task.isHard = true ↔
      ∃ kind, ∃ member ∈ node.members kind, task ∈ hardTasksOf registry node kind member := by
  obtain ⟨note, noted, made⟩ := Option.bind_eq_some_iff.mp mixin
  cases made
  simp only [mem_hardTasksOf noted, List.mem_append, List.mem_flatMap]
  constructor
  · rintro ⟨strings | ⟨member, listed, asked⟩ | ⟨member, listed, asked⟩, hard⟩
    · split at strings
      · cases List.mem_singleton.mp strings
        cases hard
      · cases strings
    · exact ⟨.field, member, listed, asked, hard⟩
    · exact ⟨.method, member, listed, asked, hard⟩
  · rintro ⟨kind, member, listed, asked, hard⟩
    cases kind with
    | field => exact ⟨.inr (.inl ⟨member, listed, asked⟩), hard⟩
    | method => exact ⟨.inr (.inr ⟨member, listed, asked⟩), hard⟩

/-! What a hard task finds. -/

namespace Scope

variable {scope : Scope} {kind other : MemberKind} {ref : MemberRef} {name desc marker new : String}

/-- The member that a hard task leads to, perhaps through a reference of an earlier hop. -/
def standsFor? (scope : Scope) (kind : MemberKind) (name desc marker : String) :
    Option Located :=
  (scope.find ⟨kind, (dropMarker marker name).1, some desc⟩ .unique scope.targets name).found?

/-- The name that a member has in place of another one. -/
def standingName (scope : Scope) (kind : MemberKind) (name marker : String) (located : Located) :
    String :=
  (dropMarker marker name).2 ++ scope.newName kind located.member

theorem dropMarker_empty (name : String) : dropMarker "" name = (name, "") := by
  have whole : Text.dropHead? "".toList name.toList = some name.toList := rfl
  rw [dropMarker, whole]
  exact congrArg (·, "") String.ofList_toList

theorem rename_ne_failure (label symbol : String) (failed : Resolution Located) :
    Finding.rename other ref new ≠ scope.failure label symbol failed := nofun

theorem rename_eq_shadowFinding :
    .rename other ref new = scope.shadowFinding kind name desc marker ↔
      other = kind ∧ ref = ⟨scope.className, name, desc⟩ ∧
        ∃ located, scope.standsFor? kind name desc marker = some located ∧
          new = scope.standingName kind name marker located := by
  unfold shadowFinding standsFor? standingName
  dsimp only
  split
  · rename_i located found
    simp [found, Resolution.found?]
  · rename_i failed missed
    refine iff_of_false (rename_ne_failure _ _ _) ?_
    rintro ⟨-, -, located, found, -⟩
    exact missed located (Resolution.found?_eq_some_iff.mp found)

theorem rename_eq_overwriteFinding :
    .rename other ref new = scope.overwriteFinding name desc ↔
      other = .method ∧ ref = ⟨scope.className, name, desc⟩ ∧
        ∃ located, scope.standsFor? .method name desc "" = some located ∧
          new = scope.standingName .method name "" located := by
  unfold overwriteFinding standsFor? standingName
  rw [dropMarker_empty]
  split
  · rename_i located found
    simp [found, Resolution.found?]
  · rename_i failed missed
    refine iff_of_false (rename_ne_failure _ _ _) ?_
    rintro ⟨-, -, located, found, -⟩
    exact missed located (Resolution.found?_eq_some_iff.mp found)

/-- The renames that are found for a hard task. -/
theorem rename_mem_hardTaskFindings {task : Task} :
    .rename other ref new ∈ scope.hardTaskFindings task ↔
      ref.owner = scope.className ∧ task.carrier? = some (other, ref.signature) ∧
        ∃ located, scope.standsFor? other ref.name ref.desc task.marker = some located ∧
          new = scope.standingName other ref.name task.marker located := by
  obtain ⟨owner, name, desc⟩ := ref
  cases task with
  | shadow kind shown type marker =>
      simp only [hardTaskFindings, List.mem_singleton, rename_eq_shadowFinding, Task.carrier?,
        Task.marker, MemberRef.signature]
      grind
  | overwrite shown type =>
      simp only [hardTaskFindings, List.mem_singleton, rename_eq_overwriteFinding, Task.carrier?,
        Task.marker, MemberRef.signature]
      grind
  | _ => simp [hardTaskFindings, Task.carrier?]

/-- A member that the classes of the hop have is found there. -/
theorem standsFor?_of_live {located : Located}
    (live : scope.nearest? ⟨kind, (dropMarker marker name).1, some desc⟩ scope.targets =
      some located) : scope.standsFor? kind name desc marker = some located := by
  rw [standsFor?, found?_find]
  have same : ∀ owner, scope.lookup ⟨kind, (dropMarker marker name).1, some desc⟩ .unique owner =
      scope.lookup ⟨kind, (dropMarker marker name).1, some desc⟩ .first owner :=
    fun owner => lookup_unique_of_desc rfl owner
  rw [nearest?] at live
  simp only [same, live, Option.some_or]

theorem declared_of_nearest? {query : MemberQuery} {owners : List String} {located : Located}
    (live : scope.nearest? query owners = some located) :
    located.member ∈ scope.renamer.hierarchy.declared query located.member.owner := by
  obtain ⟨owner, -, found⟩ := List.exists_of_findSome?_eq_some live
  rw [Resolution.found?_eq_some_iff, lookup] at found
  split at found
  · rename_i member declared
    cases found
    exact Hierarchy.declared_of_found declared
  · cases found
  · cases found

end Scope

/-! New names in what comes out. -/

theorem mem_of_get?_foldl_addRename {findings : List Finding} {renames : Renames}
    {kind : MemberKind} {ref : MemberRef} {new : String}
    (found : (findings.foldl Finding.addRename renames).get? (kind, ref) = some new) :
    .rename kind ref new ∈ findings ∨ renames.get? (kind, ref) = some new := by
  induction findings generalizing renames with
  | nil => exact .inr found
  | cons finding rest ih =>
      rcases ih found with later | first
      · exact .inl (List.mem_cons_of_mem _ later)
      · cases finding with
        | entry symbol value => exact .inr first
        | warning reported => exact .inr first
        | rename other member name =>
            rw [Finding.addRename, Keyed.get?_put] at first
            split at first
            · rename_i same
              cases same
              cases first
              exact .inl List.mem_cons_self
            · exact .inr first

namespace Hop

variable {hop : Hop} {nodes : List ClassNode} {node : ClassNode} {work : MixinWork}
  {kind : MemberKind} {ref : MemberRef} {new : String}

theorem mem_of_get?_foldl_addRenames {works : List MixinWork} {renames : Renames}
    (found : (works.foldl hop.addRenames renames).get? (kind, ref) = some new) :
    (∃ work ∈ works, .rename kind ref new ∈ hop.early work) ∨
      renames.get? (kind, ref) = some new := by
  induction works generalizing renames with
  | nil => exact .inr found
  | cons work rest ih =>
      rcases ih found with ⟨other, later, early⟩ | first
      · exact .inl ⟨other, List.mem_cons_of_mem _ later, early⟩
      · exact (mem_of_get?_foldl_addRename first).imp_left fun early =>
          ⟨work, List.mem_cons_self, early⟩

/-- The scope of the hard tasks of a class. -/
def hardScope (hop : Hop) (work : MixinWork) : Scope :=
  hop.scope work.className (hop.prepared work).targets

/-- The renames that a class finds are those of its hard tasks. -/
theorem rename_mem_early :
    .rename kind ref new ∈ hop.early work ↔
      ∃ task ∈ work.tasks, task.isHard = true ∧
        .rename kind ref new ∈ (hop.hardScope work).hardTaskFindings task := by
  rw [mem_early]
  refine exists_congr fun task => and_congr_right fun _ => ?_
  cases hard : task.isHard with
  | true =>
      rw [Scope.hardTaskFindings_eq _ hard, List.mem_flatMap,
        scopeFor_of_later (runsFirst_of_isHard hard)]
      simp only [or_true, true_and, hardScope]
  | false =>
      refine iff_of_false ?_ nofun
      rintro ⟨first | early, symbol, asked, found⟩
      · cases task with
        | mixinTargets names =>
            obtain ⟨name, -, rfl⟩ := List.mem_map.mp asked
            have only := List.mem_singleton.mp found
            unfold Scope.targetFinding at only
            split at only <;> cases only
        | _ => cases first
      · cases early

/-- A new name that comes out of a hop is found by the class of the member. -/
theorem early_of_name?_run (distinct : (nodes.map (·.name)).Nodup)
    (found : (hop.run nodes).renames.get? (kind, ref) = some new) :
    ∃ node ∈ nodes, ∃ work, contextOf? hop.registry node = some work ∧
      .rename kind ref new ∈ hop.early work := by
  obtain ⟨contexts, run⟩ := runIn_spec hop (List.Perm.refl nodes) distinct
  rw [run_eq_runIn, run] at found
  rcases mem_of_get?_foldl_addRenames found with ⟨work, named, early⟩ | none
  · obtain ⟨node, member, mixin⟩ := mem_mixins.mp ((byName_perm _).mem_iff.mp named)
    exact ⟨node, member, work, mixin, early⟩
  · cases none

/-- Members of a class that is no mixin have no names but those of the table. -/
theorem name?_run_of_plain (distinct : (nodes.map (·.name)).Nodup) (inside : node ∈ nodes)
    (plain : contextOf? hop.registry node = none) (name desc : String) :
    (hop.run nodes).renames.name? kind node.name name desc = none := by
  cases found : (hop.run nodes).renames.name? kind node.name name desc with
  | none => rfl
  | some new =>
      obtain ⟨other, listed, work, mixin, early⟩ := early_of_name?_run distinct found
      obtain ⟨task, -, -, renames⟩ := rename_mem_early.mp early
      obtain ⟨owner, -⟩ := Scope.rename_mem_hardTaskFindings.mp renames
      have same : other = node := List.inj_on_of_nodup_map distinct listed inside
        ((className_of_contextOf? mixin).symm.trans owner.symm)
      rw [same, plain] at mixin
      cases mixin

/-- What a hard task looks up. -/
def standingQuery (kind : MemberKind) (member : MemberNode) (task : Task) : MemberQuery :=
  ⟨kind, (Scope.dropMarker task.marker member.name).1, some member.desc⟩

/-- The only hard task of a member decides its new name. -/
theorem name?_run_of_standing (distinct : (nodes.map (·.name)).Nodup) (inside : node ∈ nodes)
    (mixin : contextOf? hop.registry node = some work) {member : MemberNode} {task : Task}
    (standing : Standing hop.registry node kind member task) {located : Located}
    (live : (hop.hardScope work).nearest? (standingQuery kind member task)
      (hop.hardScope work).targets = some located) :
    (hop.run nodes).renames.name? kind node.name member.name member.desc =
      some ((hop.hardScope work).standingName kind member.name task.marker located) := by
  have named := className_of_contextOf? mixin
  have finds := Scope.standsFor?_of_live live
  have ours : task ∈ hardTasksOf hop.registry node kind member := by
    rw [standing.asked]
    exact List.mem_singleton_self task
  obtain ⟨known, hard⟩ := (mem_hard_tasks mixin).mpr ⟨kind, member, standing.listed, ours⟩
  obtain ⟨note, noted, -⟩ := Option.bind_eq_some_iff.mp mixin
  have carried := carrier?_of_mem_tasksOf ((mem_hardTasksOf noted).mp ours).1 hard
  have early : .rename kind ⟨node.name, member.name, member.desc⟩
      ((hop.hardScope work).standingName kind member.name task.marker located) ∈
        hop.early work :=
    rename_mem_early.mpr ⟨task, known, hard,
      Scope.rename_mem_hardTaskFindings.mpr ⟨named.symm, carried, located, finds, rfl⟩⟩
  obtain ⟨new, found⟩ :=
    Option.isSome_iff_exists.mp (isSome_renames_run distinct inside mixin early)
  -- Whatever finds the new name is the one task of this member of this class.
  obtain ⟨other, listed, otherWork, otherMixin, decides⟩ := early_of_name?_run distinct found
  obtain ⟨otherTask, otherKnown, otherHard, renames⟩ := rename_mem_early.mp decides
  obtain ⟨owner, otherCarried, otherLocated, otherFinds, made⟩ :=
    Scope.rename_mem_hardTaskFindings.mp renames
  have sameClass : other = node := List.inj_on_of_nodup_map distinct listed inside
    ((className_of_contextOf? otherMixin).symm.trans owner.symm)
  subst sameClass
  cases mixin.symm.trans otherMixin
  obtain ⟨otherKind, otherMember, otherListed, asked⟩ :=
    (mem_hard_tasks mixin).mp ⟨otherKnown, otherHard⟩
  have carrier := Option.some_inj.mp <|
    (carrier?_of_mem_tasksOf ((mem_hardTasksOf noted).mp asked).1 otherHard).symm.trans otherCarried
  obtain ⟨sameKind, signature⟩ := Prod.mk.inj carrier
  subst sameKind
  obtain ⟨sameName, sameDesc⟩ := Signature.mk.inj signature
  rw [standing.alone otherMember otherListed sameName sameDesc, standing.asked] at asked
  cases List.mem_singleton.mp asked
  cases finds.symm.trans otherFinds
  rw [Renames.name?, found, made]

end Hop

end ArchiveRemap.Mixin
