import ArchiveRemap.Proofs.Mixin.Held
import ArchiveRemap.Proofs.Mixin.Targets

/-!
Tasks in the hands of those that resolve them. A class gives its tasks away in three parts:
those with string targets and the hard ones ahead of the classes, everything else in its own
turn. The parts are made by tests that have nothing to do with each other, so it has to be
proved that no task is left over or given away twice, and that each comes to the resolver that
looks at tasks of its sort.
-/

namespace ArchiveRemap.Mixin

/-- The three that tasks are given to. -/
inductive Resolver where
  | strings
  | members
  | symbols
  deriving DecidableEq, Repr

/-- What a resolver finds for one task. -/
def Resolver.findings (resolver : Resolver) (scope : Scope) (task : Task) : List Finding :=
  match resolver with
  | .strings => targetFindings scope [task]
  | .members => scope.hardTaskFindings task
  | .symbols => scope.softTaskFindings task

namespace Task

/-- The resolver for tasks of a sort. -/
def resolver : Task → Resolver
  | .mixinTargets _ => .strings
  | .methodTargets .. => .symbols
  | .injectionPoint .. => .symbols
  | .accessor .. => .symbols
  | .invoker .. => .symbols
  | .shadow .. => .members
  | .overwrite .. => .members

theorem runsFirst_eq (task : Task) : task.runsFirst = decide (task.resolver = .strings) := by
  cases task <;> rfl

theorem isHard_eq (task : Task) : task.isHard = decide (task.resolver = .members) := by
  cases task <;> rfl

/-- Its resolver finds what the symbols of a task find. -/
theorem findings_resolver (scope : Scope) (task : Task) :
    task.resolver.findings scope task = task.symbols.flatMap scope.symbolFindings := by
  cases sort : task.resolver with
  | strings =>
      cases task with
      | mixinTargets names => exact scope.targetFindings_eq names
      | _ => cases sort
  | members =>
      exact scope.hardTaskFindings_eq (by rw [isHard_eq, sort]; rfl)
  | symbols =>
      exact scope.softTaskFindings_eq (by rw [runsFirst_eq, sort]; rfl)
        (by rw [isHard_eq, sort]; rfl)

/-- Every other resolver passes over the task. -/
theorem findings_of_ne {resolver : Resolver} {task : Task} (other : resolver ≠ task.resolver)
    (scope : Scope) : resolver.findings scope task = [] := by
  cases resolver <;> cases task <;> first | rfl | exact absurd rfl other

end Task

/-- A task, the resolver that it is given to, and what it is resolved against. -/
structure Handover where
  resolver : Resolver
  scope : Scope
  task : Task

def Handover.findings (given : Handover) : List Finding :=
  given.resolver.findings given.scope given.task

/-! The parts of the tasks of a class. -/

theorem taken_eq_filter {wanted : Task → Bool} {tasks : List Task}
    (alike : (∀ task ∈ tasks, wanted task = true → task.runsFirst = true) ∨
      ∀ task ∈ tasks, wanted task = true → task.runsFirst = false) :
    (takeTasks wanted tasks).1 = tasks.filter wanted := by
  unfold takeTasks
  rcases alike with first | later
  · have all : ∀ task ∈ tasks.filter wanted, task.runsFirst = true := fun task listed =>
      first task (List.mem_filter.mp listed).1 (List.mem_filter.mp listed).2
    have none : ∀ task ∈ tasks.filter wanted, ¬(!task.runsFirst) = true := fun task listed => by
      simp [all task listed]
    simp only [List.filter_eq_self.mpr all, List.filter_eq_nil_iff.mpr none, List.append_nil]
  · have all : ∀ task ∈ tasks.filter wanted, (!task.runsFirst) = true := fun task listed => by
      simp [later task (List.mem_filter.mp listed).1 (List.mem_filter.mp listed).2]
    have none : ∀ task ∈ tasks.filter wanted, ¬task.runsFirst = true := fun task listed => by
      simpa using all task listed
    simp only [List.filter_eq_self.mpr all, List.filter_eq_nil_iff.mpr none, List.nil_append]

/-- The tasks for one resolver, in the order of their collection. -/
def tasksFor (resolver : Resolver) (tasks : List Task) : List Task :=
  tasks.filter (·.resolver = resolver)

theorem taken_first (tasks : List Task) :
    (takeTasks Task.runsFirst tasks).1 = tasksFor .strings tasks := by
  rw [taken_eq_filter (.inl fun _ _ first => first), tasksFor]
  exact List.filter_congr fun task _ => task.runsFirst_eq

theorem taken_hard (tasks : List Task) :
    (takeTasks Task.isHard (takeTasks Task.runsFirst tasks).2).1 = tasksFor .members tasks := by
  rw [taken_eq_filter (.inr fun _ _ => Hop.runsFirst_of_isHard), tasksFor, takeTasks,
    List.filter_filter]
  refine List.filter_congr fun task _ => ?_
  cases task <;> rfl

theorem taken_rest (tasks : List Task) :
    (takeTasks (fun _ => true)
      (takeTasks Task.isHard (takeTasks Task.runsFirst tasks).2).2).1 = tasksFor .symbols tasks := by
  have later : ∀ task ∈ (takeTasks Task.isHard (takeTasks Task.runsFirst tasks).2).2,
      true = true → task.runsFirst = false :=
    fun task left _ => (mem_left.mp (mem_left.mp left).1).2
  rw [taken_eq_filter (.inr later), List.filter_eq_self.mpr fun _ _ => rfl, tasksFor]
  simp only [takeTasks, List.filter_filter]
  refine List.filter_congr fun task _ => ?_
  cases task <;> rfl

theorem tasksFor_cons (resolver : Resolver) (task : Task) (rest : List Task) :
    tasksFor resolver (task :: rest) =
      if task.resolver = resolver then task :: tasksFor resolver rest
      else tasksFor resolver rest := by
  rw [tasksFor, List.filter_cons]
  simp only [decide_eq_true_eq, tasksFor]

/-- No task is left over, and none is there twice. -/
theorem tasksFor_perm (tasks : List Task) :
    (tasksFor .strings tasks ++ tasksFor .members tasks ++ tasksFor .symbols tasks).Perm tasks := by
  induction tasks with
  | nil => exact .nil
  | cons task rest ih =>
      simp only [tasksFor_cons]
      refine List.Perm.trans ?_ (ih.cons task)
      cases task.resolver with
      | strings => exact .refl _
      | members => exact List.perm_middle.append_right (tasksFor .symbols rest)
      | symbols => exact List.perm_middle

namespace Hop

/-! What a class gives away. -/

section

variable (hop : Hop) (work : MixinWork)

/-- Ahead of the classes: string targets first, then the hard tasks with all targets. -/
def givenAhead : List Handover :=
  let (early, tasks) := takeTasks Task.runsFirst work.tasks
  let (hard, _) := takeTasks Task.isHard tasks
  early.map (⟨.strings, hop.scope work.className [], ·⟩) ++
    hard.map (⟨.members, hop.scope work.className (extendTargets work.targets early), ·⟩)

/-- In its own turn: what is left. -/
def givenInTurn : List Handover :=
  (takeTasks (fun _ => true) work.tasks).1.map
    (⟨.symbols, hop.scope work.className work.targets, ·⟩)

/-- Everything that a class gives away in a hop. -/
def given : List Handover := hop.givenAhead work ++ hop.givenInTurn (hop.prepared work)

/-- The classes find what their handovers find. -/
theorem early_eq_givenAhead : hop.early work = (hop.givenAhead work).flatMap Handover.findings := by
  simp [early, processClass, givenAhead, List.flatMap_map, Handover.findings, Resolver.findings,
    targetFindings, Scope.hardFindings]

theorem findings_finishClass :
    (hop.finishClass work).2 = (hop.givenInTurn work).flatMap Handover.findings := by
  simp [finishClass, givenInTurn, List.flatMap_map, Handover.findings, Resolver.findings,
    Scope.softFindings]

/-- The three parts one after the other, the last two with all targets of the class. -/
theorem given_eq : hop.given work =
    (tasksFor .strings work.tasks).map (⟨.strings, hop.scope work.className [], ·⟩) ++
      (tasksFor .members work.tasks).map
        (⟨.members, hop.scope work.className (hop.prepared work).targets, ·⟩) ++
      (tasksFor .symbols work.tasks).map
        (⟨.symbols, hop.scope work.className (hop.prepared work).targets, ·⟩) := by
  rw [given, givenAhead, givenInTurn, ← taken_first, ← taken_hard, ← taken_rest]
  rfl

/-! What a whole hop gives away, in the order of its steps. -/

/-- The names that are left, each with the context that the hop has for it when it comes up. -/
def givenAheadFrom (state : HopState) : List String → List Handover
  | [] => []
  | className :: rest =>
      (state.contexts.get? className).elim [] hop.givenAhead ++
        givenAheadFrom (hop.processNamed state className) rest

def givenInTurnFrom (state : HopState) : List ClassNode → List Handover
  | [] => []
  | node :: rest =>
      (state.contexts.get? node.name).elim [] hop.givenInTurn ++
        givenInTurnFrom (hop.finishNode state node) rest

/-- Everything that is given away in a hop over some classes. -/
def handed (nodes : List ClassNode) : List Handover :=
  hop.givenAheadFrom (hop.analyzed nodes)
      ((hop.analyzed nodes).contexts.keys.mergeSort fun left right => left ≤ right) ++
    hop.givenInTurnFrom (hop.processAll (hop.analyzed nodes)) nodes

end

section

variable {hop : Hop} {work : MixinWork} {state : HopState} {className : String}

/-! What a step of a hop leaves alone. -/

theorem get?_processNamed (hop : Hop) (state : HopState) (className other : String) :
    (hop.processNamed state className).contexts.get? other =
      if className = other then (state.contexts.get? other).map hop.prepared
      else state.contexts.get? other := by
  unfold processNamed
  cases there : state.contexts.get? className with
  | none =>
      by_cases same : className = other
      · rw [if_pos same, ← same, there]
        rfl
      · rw [if_neg same]
  | some work =>
      dsimp only
      rw [Keyed.get?_put]
      by_cases same : className = other
      · rw [if_pos same, if_pos same, ← same, there]
        rfl
      · rw [if_neg same, if_neg same]

theorem get?_finishNode (hop : Hop) (state : HopState) (node : ClassNode) (other : String) :
    (hop.finishNode state node).contexts.get? other =
      if node.name = other then none else state.contexts.get? other := by
  unfold finishNode
  cases there : state.contexts.get? node.name with
  | none =>
      by_cases same : node.name = other
      · rw [if_pos same, ← same, there]
      · rw [if_neg same]
  | some work => exact Keyed.get?_erase ..

/-! The handovers of one class among those of all. -/

/-- Contexts that stand under the names of their classes. -/
def Named (state : HopState) : Prop :=
  ∀ name work, state.contexts.get? name = some work → work.className = name

theorem Named.processNamed (named : Named state) (className : String) :
    Named (hop.processNamed state className) := by
  intro name work found
  rw [get?_processNamed] at found
  split at found
  · obtain ⟨old, there, rfl⟩ := Option.map_eq_some_iff.mp found
    exact named name old there
  · exact named name work found

theorem Named.finishNode (named : Named state) (node : ClassNode) :
    Named (hop.finishNode state node) := by
  intro name work found
  rw [get?_finishNode] at found
  split at found
  · cases found
  · exact named name work found

def ofClass (className : String) (given : List Handover) : List Handover :=
  given.filter (·.scope.className = className)

theorem ofClass_append (className : String) (front back : List Handover) :
    ofClass className (front ++ back) = ofClass className front ++ ofClass className back :=
  List.filter_append ..

theorem className_of_mem_given {given : Handover}
    (member : given ∈ hop.givenAhead work ∨ given ∈ hop.givenInTurn work) :
    given.scope.className = work.className := by
  rcases member with ahead | inTurn
  · rcases List.mem_append.mp ahead with early | hard
    · obtain ⟨task, -, rfl⟩ := List.mem_map.mp early
      rfl
    · obtain ⟨task, -, rfl⟩ := List.mem_map.mp hard
      rfl
  · obtain ⟨task, -, rfl⟩ := List.mem_map.mp inTurn
    rfl

/-- All handovers of a class are its own, and none is of another class. -/
theorem ofClass_of_alike {given : List Handover}
    (alike : ∀ one ∈ given, one.scope.className = work.className) (className : String) :
    ofClass className given = if work.className = className then given else [] := by
  by_cases same : work.className = className
  · rw [if_pos same, ofClass, List.filter_eq_self]
    exact fun one member => decide_eq_true ((alike one member).trans same)
  · rw [if_neg same, ofClass, List.filter_eq_nil_iff]
    exact fun one member other =>
      same ((alike one member).symm.trans (of_decide_eq_true other))

theorem ofClass_elim {give : MixinWork → List Handover}
    (alike : ∀ work, ∀ one ∈ give work, one.scope.className = work.className)
    (named : Named state) (name className : String) :
    ofClass className ((state.contexts.get? name).elim [] give) =
      if name = className then (state.contexts.get? className).elim [] give else [] := by
  cases there : state.contexts.get? name with
  | none =>
      split
      · rename_i same
        rw [← same, there]
        rfl
      · rfl
  | some work =>
      rw [Option.elim_some, ofClass_of_alike (alike work), named name work there]
      by_cases same : name = className
      · rw [if_pos same, if_pos same, ← same, there, Option.elim_some]
      · rw [if_neg same, if_neg same]

/-- Work for other classes in between changes nothing. -/
theorem ofClass_givenAheadFrom {names : List String} (distinct : names.Nodup)
    (named : Named state) (className : String) :
    ofClass className (hop.givenAheadFrom state names) =
      if className ∈ names then (state.contexts.get? className).elim [] hop.givenAhead
      else [] := by
  induction names generalizing state with
  | nil => rfl
  | cons name rest ih =>
      obtain ⟨fresh, others⟩ := List.nodup_cons.mp distinct
      rw [givenAheadFrom, ofClass_append, ih others (named.processNamed name),
        ofClass_elim (fun work one member => className_of_mem_given (.inl member)) named,
        get?_processNamed]
      by_cases same : name = className
      · subst same
        simp [fresh]
      · simp [same, Ne.symm same]

theorem ofClass_givenInTurnFrom {nodes : List ClassNode} (named : Named state)
    (className : String) :
    ofClass className (hop.givenInTurnFrom state nodes) =
      if className ∈ nodes.map (·.name) then
        (state.contexts.get? className).elim [] hop.givenInTurn
      else [] := by
  induction nodes generalizing state with
  | nil => rfl
  | cons node rest ih =>
      rw [givenInTurnFrom, ofClass_append, ih (named.finishNode node),
        ofClass_elim (fun work one member => className_of_mem_given (.inr member)) named,
        get?_finishNode]
      by_cases same : node.name = className
      · -- A class that comes up again has no context left.
        subst same
        simp
      · simp [same, Ne.symm same]

/-- Of all that a hop gives away, a name has what the context gives away that is held under
it. -/
theorem ofClass_handed (hop : Hop) (nodes : List ClassNode) (className : String) :
    ofClass className (hop.handed nodes) = (hop.held? nodes className).elim [] hop.given := by
  have analyzedNamed : Named (hop.analyzed nodes) := by
    intro name work found
    rw [get?_analyzed] at found
    exact (exists_of_held? found).1
  have processedNamed : Named (hop.processAll (hop.analyzed nodes)) := by
    intro name work found
    rw [get?_processAll] at found
    obtain ⟨old, held, rfl⟩ := Option.map_eq_some_iff.mp found
    exact (exists_of_held? held).1
  have sorted := List.mergeSort_perm (hop.analyzed nodes).contexts.keys
    fun left right => left ≤ right
  rw [handed, ofClass_append,
    ofClass_givenAheadFrom (sorted.nodup_iff.mpr (hop.filed_analyzed nodes).distinct) analyzedNamed,
    ofClass_givenInTurnFrom processedNamed, get?_analyzed, get?_processAll]
  cases held : hop.held? nodes className with
  | none => simp
  | some work =>
      obtain ⟨-, node, listed, name, -⟩ := exists_of_held? held
      have known : className ∈ (hop.analyzed nodes).contexts.keys := by
        refine Decidable.of_not_not fun absent => ?_
        rw [← Keyed.get?_eq_none_iff, get?_analyzed, held] at absent
        cases absent
      rw [if_pos (sorted.mem_iff.mpr known), if_pos (List.mem_map.mpr ⟨node, listed, name⟩)]
      rfl

/-! What comes of the handovers. -/

theorem noticesOf_append (front back : List Finding) :
    noticesOf (front ++ back) = noticesOf front ++ noticesOf back :=
  List.filterMap_append

theorem notices_processNamed (hop : Hop) (state : HopState) (className : String) :
    (hop.processNamed state className).notices = state.notices ++
      noticesOf (((state.contexts.get? className).elim [] hop.givenAhead).flatMap
        Handover.findings) := by
  unfold processNamed
  cases there : state.contexts.get? className with
  | none => exact (List.append_nil _).symm
  | some work => rw [Option.elim_some, ← early_eq_givenAhead]; rfl

theorem notices_finishNode (hop : Hop) (state : HopState) (node : ClassNode) :
    (hop.finishNode state node).notices = state.notices ++
      noticesOf (((state.contexts.get? node.name).elim [] hop.givenInTurn).flatMap
        Handover.findings) := by
  unfold finishNode
  cases there : state.contexts.get? node.name with
  | none => exact (List.append_nil _).symm
  | some work => rw [Option.elim_some, ← findings_finishClass]

theorem notices_foldl_processNamed (hop : Hop) (names : List String) (state : HopState) :
    (names.foldl hop.processNamed state).notices = state.notices ++
      noticesOf ((hop.givenAheadFrom state names).flatMap Handover.findings) := by
  induction names generalizing state with
  | nil => exact (List.append_nil _).symm
  | cons name rest ih =>
      rw [List.foldl_cons, ih, notices_processNamed, givenAheadFrom, List.flatMap_append,
        noticesOf_append, List.append_assoc]

theorem notices_foldl_finishNode (hop : Hop) (nodes : List ClassNode) (state : HopState) :
    (nodes.foldl hop.finishNode state).notices = state.notices ++
      noticesOf ((hop.givenInTurnFrom state nodes).flatMap Handover.findings) := by
  induction nodes generalizing state with
  | nil => exact (List.append_nil _).symm
  | cons node rest ih =>
      rw [List.foldl_cons, ih, notices_finishNode, givenInTurnFrom, List.flatMap_append,
        noticesOf_append, List.append_assoc]

/-- After the notices about unlisted classes a hop tells what its handovers find, in their
order. -/
theorem notices_run (hop : Hop) (nodes : List ClassNode) :
    (hop.run nodes).notices = (hop.mixins nodes).flatMap hop.listing ++
      noticesOf ((hop.handed nodes).flatMap Handover.findings) := by
  obtain ⟨contexts, state, -⟩ := hop.analyzed_held nodes
  have whole : hop.run nodes =
      nodes.foldl hop.finishNode (hop.processAll (hop.analyzed nodes)) := rfl
  rw [whole, notices_foldl_finishNode, processAll, notices_foldl_processNamed, handed,
    List.flatMap_append, noticesOf_append, ← List.append_assoc]
  congr 2
  rw [state]

/-! Every task once, to its own resolver. -/

theorem tasks_map_handover (resolver other : Resolver) (scope : Scope) (tasks : List Task) :
    ((tasks.map (Handover.mk other scope ·)).filter (·.resolver = resolver)).map (·.task) =
      if other = resolver then tasks else [] := by
  by_cases same : other = resolver <;> simp [same, Function.comp_def, List.filter_map]

theorem mem_given {one : Handover} :
    one ∈ hop.given work ↔ one.task ∈ work.tasks ∧ one.resolver = one.task.resolver ∧
      one.scope = hop.scope work.className
        (if one.resolver = .strings then [] else (hop.prepared work).targets) := by
  obtain ⟨resolver, scope, task⟩ := one
  simp only [given_eq, tasksFor, List.mem_append, List.mem_map, List.mem_filter,
    decide_eq_true_eq, Handover.mk.injEq]
  cases resolver <;> grind

/-- Over a hop every task of a mixin class is given away once, to the resolver for its sort and in
the order of the collection. String targets come before everything else, and when anything else
is resolved they are all among the targets. In a run that holds the context of the class, nothing
else is given away for it, whatever other classes do in between, and the run tells what its
handovers find; the context goes only if a later mixin class takes its name. -/
theorem tasks_handed_once (hop : Hop) {node : ClassNode} {work : MixinWork}
    (mixin : contextOf? hop.registry node = some work) :
    ((hop.given work).map (·.task)).Perm work.tasks ∧
    (∀ one ∈ hop.given work, one.resolver = one.task.resolver ∧
      one.findings = one.task.symbols.flatMap one.scope.symbolFindings ∧
      ∀ other, other ≠ one.resolver → ∀ scope, other.findings scope one.task = []) ∧
    (∀ resolver, ((hop.given work).filter (·.resolver = resolver)).map (·.task) =
      work.tasks.filter (·.resolver = resolver)) ∧
    (hop.given work).Pairwise (fun first later =>
      later.resolver = .strings → first.resolver = .strings) ∧
    (∀ one ∈ hop.given work, one.resolver ≠ .strings → ∀ className,
      className ∈ one.scope.targets ↔
        className ∈ work.targets ∨ className ∈ work.stringTargets.map ClassName.ofDotted) ∧
    ∀ before after,
      (∀ other ∈ after, other.name = node.name → contextOf? hop.registry other = none) →
        ofClass node.name (hop.handed (before ++ node :: after)) = hop.given work ∧
        (hop.run (before ++ node :: after)).notices =
          (hop.mixins (before ++ node :: after)).flatMap hop.listing ++
            noticesOf ((hop.handed (before ++ node :: after)).flatMap Handover.findings) := by
  refine ⟨?once, fun one member => ?resolved, fun resolver => ?kept, ?first,
    fun one member later className => ?joined,
    fun before after last => ⟨?alone, hop.notices_run _⟩⟩
  case once =>
    rw [given_eq]
    simpa [Function.comp_def] using tasksFor_perm work.tasks
  case resolved =>
    obtain ⟨-, own, -⟩ := mem_given.mp member
    refine ⟨own, ?_, fun other apart => Task.findings_of_ne (own ▸ apart)⟩
    rw [Handover.findings, own, Task.findings_resolver]
  case kept =>
    rw [given_eq, List.filter_append, List.filter_append, List.map_append, List.map_append,
      tasks_map_handover, tasks_map_handover, tasks_map_handover]
    cases resolver <;> simp [tasksFor]
  case first =>
    rw [given_eq, List.append_assoc, List.pairwise_append]
    refine ⟨?_, ?_, ?_⟩
    · exact List.pairwise_map.mpr (List.pairwise_of_forall fun _ _ _ => rfl)
    · refine List.pairwise_of_forall_mem_list fun first _ later member strings => ?_
      rcases List.mem_append.mp member with hard | soft
      · obtain ⟨task, -, rfl⟩ := List.mem_map.mp hard
        cases strings
      · obtain ⟨task, -, rfl⟩ := List.mem_map.mp soft
        cases strings
    · intro first member later _ _
      obtain ⟨task, -, rfl⟩ := List.mem_map.mp member
      rfl
  case joined =>
    obtain ⟨-, -, scope⟩ := mem_given.mp member
    rw [scope, if_neg later]
    exact (targets_prepared hop work ▸ mem_foldl_joinTarget :
      className ∈ (hop.prepared work).targets ↔ _)
  case alone =>
    rw [ofClass_handed, held?_of_last mixin last, Option.elim_some]

end

/-! A mixin with an injector in front of a method that overwrites one of the target, after
another class. -/

def injectingMixin : ClassNode :=
  { name := "m/M", access := 0, superName := none, interfaces := []
    annotations := [⟨"Lorg/spongepowered/asm/mixin/Mixin;",
      [("targets", .array [.string "a.B"])]⟩]
    fields := []
    methods :=
      [⟨0, "onTick", "()V", [⟨"Lorg/spongepowered/asm/mixin/injection/Inject;",
          [("method", .array [.string "tick"])]⟩]⟩,
        ⟨0, "draw", "()V", [⟨"Lorg/spongepowered/asm/mixin/Overwrite;", []⟩]⟩] }

def injectingWork : MixinWork :=
  ⟨"m/M", [], [.mixinTargets ["a.B"], .methodTargets "@Inject" ["tick"],
    .overwrite "draw" "()V"], .empty⟩

def injectingHop : Hop :=
  ⟨.standard false, .standard, .empty "refmap.json",
    ⟨.empty "official" "named", .ofNodes [injectingMixin]⟩⟩

theorem tasks_handed_once_injecting :
    ((injectingHop.given injectingWork).map (·.task)).Perm injectingWork.tasks ∧
    (∀ one ∈ injectingHop.given injectingWork, one.resolver = one.task.resolver ∧
      one.findings = one.task.symbols.flatMap one.scope.symbolFindings ∧
      ∀ other, other ≠ one.resolver → ∀ scope, other.findings scope one.task = []) ∧
    (∀ resolver,
      ((injectingHop.given injectingWork).filter (·.resolver = resolver)).map (·.task) =
        injectingWork.tasks.filter (·.resolver = resolver)) ∧
    (injectingHop.given injectingWork).Pairwise (fun first later =>
      later.resolver = .strings → first.resolver = .strings) ∧
    (∀ one ∈ injectingHop.given injectingWork, one.resolver ≠ .strings → ∀ className,
      className ∈ one.scope.targets ↔
        className ∈ injectingWork.targets ∨
          className ∈ injectingWork.stringTargets.map ClassName.ofDotted) ∧
    ∀ before after,
      (∀ other ∈ after, other.name = injectingMixin.name →
        contextOf? injectingHop.registry other = none) →
        ofClass injectingMixin.name (injectingHop.handed (before ++ injectingMixin :: after)) =
          injectingHop.given injectingWork ∧
        (injectingHop.run (before ++ injectingMixin :: after)).notices =
          (injectingHop.mixins (before ++ injectingMixin :: after)).flatMap
              injectingHop.listing ++
            noticesOf ((injectingHop.handed (before ++ injectingMixin :: after)).flatMap
              Handover.findings) :=
  tasks_handed_once injectingHop rfl

end Hop

end ArchiveRemap.Mixin
