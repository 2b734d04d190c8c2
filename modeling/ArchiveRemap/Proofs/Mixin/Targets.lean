import ArchiveRemap.Proofs.Hierarchy.Lookup
import ArchiveRemap.Proofs.Mixin.Accounted

/-!
The targets of a mixin that come from strings. A string has a reference when the hop has its
class, or when it knows one from an earlier hop. The class that joins the targets is the
string itself in both cases, so a known class is among them only for another reason. No class
joins twice.
-/

namespace ArchiveRemap.Mixin

/-- The string targets of a task. -/
def Task.stringTargets : Task → List String
  | .mixinTargets names => names
  | _ => []

def MixinWork.stringTargets (work : MixinWork) : List String :=
  work.tasks.flatMap Task.stringTargets

/-! Targets that join. -/

/-- One string target in internal form joins the targets. -/
def joinTarget (targets : List String) (name : String) : List String :=
  let internal := ClassName.ofDotted name
  if internal ∈ targets then targets else targets ++ [internal]

theorem extendTargets_eq (targets : List String) (tasks : List Task) :
    extendTargets targets tasks = (tasks.flatMap Task.stringTargets).foldl joinTarget targets := by
  induction tasks generalizing targets with
  | nil => rfl
  | cons task rest ih =>
      rw [List.flatMap_cons, List.foldl_append, ← ih]
      cases task <;> rfl

/-- A class that joins is there once, and more often only if it was before. -/
theorem count_joinTarget (targets : List String) (name className : String) :
    (joinTarget targets name).count className =
      max (targets.count className) (if className = ClassName.ofDotted name then 1 else 0) := by
  unfold joinTarget
  by_cases there : ClassName.ofDotted name ∈ targets
  · by_cases same : className = ClassName.ofDotted name
    · subst same
      have := List.count_pos_iff.mpr there
      simp only [there, if_true]
      omega
    · simp [there, same]
  · by_cases same : className = ClassName.ofDotted name
    · subst same
      simp [there, List.count_eq_zero_of_not_mem there]
    · simp [there, same, Ne.symm same]

theorem count_foldl_joinTarget (names targets : List String) (className : String) :
    (names.foldl joinTarget targets).count className =
      max (targets.count className)
        (if className ∈ names.map ClassName.ofDotted then 1 else 0) := by
  induction names generalizing targets with
  | nil => simp
  | cons name rest ih =>
      rw [List.foldl_cons, ih, count_joinTarget, Nat.max_assoc, List.map_cons]
      congr 1
      by_cases first : className = ClassName.ofDotted name
      · rw [if_pos first, if_pos (List.mem_cons.mpr (.inl first))]
        split <;> rfl
      · rw [if_neg first, Nat.zero_max]
        simp only [List.mem_cons, first, false_or]

theorem mem_foldl_joinTarget {names targets : List String} {className : String} :
    className ∈ names.foldl joinTarget targets ↔
      className ∈ targets ∨ className ∈ names.map ClassName.ofDotted := by
  rw [← List.count_pos_iff, count_foldl_joinTarget]
  by_cases joins : className ∈ names.map ClassName.ofDotted
  · rw [if_pos joins]
    exact iff_of_true (by omega) (.inr joins)
  · rw [if_neg joins, Nat.max_zero, List.count_pos_iff]
    exact (or_iff_left joins).symm

/-! References of string targets. -/

theorem flatMap_targetFindings (scope : Scope) (tasks : List Task) :
    targetFindings scope tasks = (tasks.flatMap Task.stringTargets).map scope.targetFinding := by
  rw [targetFindings, List.map_flatMap]
  congr 1
  funext task
  cases task <;> rfl

/-- The reference of a string target is the class that it stands for, renamed. -/
theorem get?_foldl_targetFinding (scope : Scope) (names : List String) (entries : ClassEntries)
    (key : String) :
    ((names.map scope.targetFinding).foldl Finding.addEntry entries).get? key =
      (if key ∈ names then (scope.targetClass? key).map scope.renamer.mapClass else none).or
        (entries.get? key) := by
  induction names generalizing entries with
  | nil => simp
  | cons name rest ih =>
      rw [List.map_cons, List.foldl_cons, ih, Scope.targetFinding]
      cases resolved : scope.targetClass? name with
      | none =>
          by_cases same : key = name
          · subst same
            simp [Finding.addEntry, Scope.warn, resolved]
          · simp [Finding.addEntry, Scope.warn, same]
      | some found =>
          by_cases same : key = name
          -- The same string later on has the same reference, so its insertion changes nothing.
          · subst same
            by_cases later : key ∈ rest <;>
              simp [Finding.addEntry, Dictionary.get?_insert, resolved, later]
          · simp [Finding.addEntry, Dictionary.get?_insert, same, Ne.symm same]

namespace Hop

variable {hop : Hop} {work : MixinWork}

/-- The tasks that run first are those with string targets. -/
theorem stringTargets_taken (tasks : List Task) :
    (takeTasks Task.runsFirst tasks).1.flatMap Task.stringTargets =
      tasks.flatMap Task.stringTargets := by
  have first : ∀ task : Task, task.runsFirst = false → task.stringTargets = [] := by
    intro task later
    cases task <;> first | rfl | cases later
  have taken : (takeTasks Task.runsFirst tasks).1 = tasks.filter Task.runsFirst := by
    simp [takeTasks, List.filter_filter]
  rw [taken]
  exact Scope.flatMap_filter_of_skipped first tasks

/-- The class that a string target of a mixin stands for. -/
def targetClass? (hop : Hop) (work : MixinWork) (name : String) : Option String :=
  (hop.scope work.className []).targetClass? name

theorem targets_prepared (hop : Hop) (work : MixinWork) :
    (hop.prepared work).targets = work.stringTargets.foldl joinTarget work.targets := by
  rw [prepared, processClass, MixinWork.stringTargets, ← stringTargets_taken, ← extendTargets_eq]

theorem entries_prepared (fresh : work.entries = .empty) (name : String) :
    (hop.prepared work).entries.get? name =
      if name ∈ work.stringTargets then (hop.targetClass? work name).map hop.renamer.mapClass
      else none := by
  rw [prepared, processClass, MixinWork.stringTargets, ← stringTargets_taken]
  dsimp only
  rw [flatMap_targetFindings, get?_foldl_targetFinding, fresh, Dictionary.get?_empty,
    Option.or_none]
  rfl

/-- A string that the hop has a class for stands for that class. -/
theorem targetClass?_of_knows {name : String}
    (direct : hop.renamer.knows (ClassName.ofDotted name) = true) :
    hop.targetClass? work name = some (ClassName.ofDotted name) := by
  rw [targetClass?, Scope.targetClass?]
  exact if_pos direct

/-- The string targets of a mixin class. Each has a reference when it stands for a class of
the hop, found directly or through what an earlier hop wrote. That class is among the targets
of the later tasks exactly when it was found directly, is a literal target or is another
string in internal form. The strings add no class twice. -/
theorem string_target_joins_iff {node : ClassNode} {task : Task}
    (mixin : contextOf? hop.registry node = some work) (later : task.runsFirst = false) :
    (∀ name value, (hop.prepared work).entries.get? name = some value ↔
      name ∈ work.stringTargets ∧ ∃ found, hop.targetClass? work name = some found ∧
        hop.renamer.mapClass found = value) ∧
    (∀ name ∈ work.stringTargets, ∀ found, hop.targetClass? work name = some found →
      (found ∈ (hop.scopeFor work task).targets ↔
        hop.renamer.knows (ClassName.ofDotted name) = true ∨ found ∈ work.targets ∨
          found ∈ work.stringTargets.map ClassName.ofDotted)) ∧
    ∀ className, (hop.scopeFor work task).targets.count className =
      max (work.targets.count className)
        (if className ∈ work.stringTargets.map ClassName.ofDotted then 1 else 0) := by
  have joined : (hop.scopeFor work task).targets =
      work.stringTargets.foldl joinTarget work.targets := by
    rw [scopeFor_of_later later]
    exact targets_prepared hop work
  refine ⟨fun name value => ?_, fun name asked found stands => ?_, fun className => ?_⟩
  · rw [entries_prepared (entries_of_contextOf? mixin)]
    by_cases asked : name ∈ work.stringTargets
    · rw [if_pos asked, Option.map_eq_some_iff, eq_true asked, true_and]
    · simp [asked]
  · rw [joined, mem_foldl_joinTarget]
    -- A class that was found directly is one of the strings in internal form.
    refine (or_iff_right_of_imp fun direct => ?_).symm
    rw [targetClass?_of_knows direct, Option.some_inj] at stands
    exact .inr (List.mem_map.mpr ⟨name, asked, stands⟩)
  · rw [joined, count_foldl_joinTarget]

/-! The mixin with a string target in a hop that has its class, and in a later one. -/

def tickingRenamer (owner mapped method methodMapped : String) : Renamer :=
  ⟨⟨"source", "target", [(owner, ⟨mapped, [], [⟨method, "()V", methodMapped⟩]⟩)]⟩,
    ⟨[(owner, ⟨owner, none, [], [], [⟨method, "()V"⟩]⟩)]⟩⟩

def resolvingHop : Hop :=
  ⟨.standard false, .standard, .empty "refmap.json", tickingRenamer "a/B" "C" "tick" "run"⟩

/-- A hop in which only the reference of the string leads to a class. -/
def laterHop : Hop :=
  ⟨.standard false, .standard,
    (Inputs.empty "refmap.json").takeRefmap "refmap.json"
      ⟨.ofList [("m/M", .ofList [("a.B", "C")])]⟩,
    tickingRenamer "C" "First" "tick" "run"⟩

theorem string_target_joins_iff_direct :
    (∀ name value, (resolvingHop.prepared overwritingWork).entries.get? name = some value ↔
      name ∈ overwritingWork.stringTargets ∧
        ∃ found, resolvingHop.targetClass? overwritingWork name = some found ∧
          resolvingHop.renamer.mapClass found = value) ∧
    (∀ name ∈ overwritingWork.stringTargets, ∀ found,
      resolvingHop.targetClass? overwritingWork name = some found →
      (found ∈ (resolvingHop.scopeFor overwritingWork (.overwrite "tick" "()V")).targets ↔
        resolvingHop.renamer.knows (ClassName.ofDotted name) = true ∨
          found ∈ overwritingWork.targets ∨
          found ∈ overwritingWork.stringTargets.map ClassName.ofDotted)) ∧
    ∀ className,
      (resolvingHop.scopeFor overwritingWork (.overwrite "tick" "()V")).targets.count className =
        max (overwritingWork.targets.count className)
          (if className ∈ overwritingWork.stringTargets.map ClassName.ofDotted then 1 else 0) :=
  @string_target_joins_iff resolvingHop overwritingWork overwritingMixin
    (.overwrite "tick" "()V") rfl rfl

/-- In the later hop the string has the reference of the class that it is known to stand for,
but that class is no target, and the method of the mixin does not follow the method that it
overwrites. -/
theorem string_target_left_behind :
    contextOf? laterHop.registry overwritingMixin = some overwritingWork ∧
      laterHop.targetClass? overwritingWork "a.B" = some "C" ∧
      laterHop.renamer.mapClass "C" = "First" ∧
      (laterHop.prepared overwritingWork).entries.get? "a.B" = some "First" ∧
      (laterHop.scopeFor overwritingWork (.overwrite "tick" "()V")).targets = ["a/B"] ∧
      laterHop.early overwritingWork = [.entry "a.B" "First",
        .warning ⟨"m/M", "@Overwrite", "tick", .unresolved⟩] := by
  have found : laterHop.early overwritingWork =
      [(laterHop.scope "m/M" []).targetFinding "a.B",
        (laterHop.scope "m/M" ["a/B"]).overwriteFinding "tick" "()V"] := rfl
  have named : (laterHop.scope "m/M" []).targetFinding "a.B" = .entry "a.B" "First" := by decide
  have missed : (laterHop.scope "m/M" ["a/B"]).overwriteFinding "tick" "()V" =
      .warning ⟨"m/M", "@Overwrite", "tick", .unresolved⟩ := by
    have nowhere : (laterHop.scope "m/M" ["a/B"]).lookup ⟨.method, "tick", some "()V"⟩ .unique
        "a/B" = .notFound := by
      rw [Scope.lookup, Hierarchy.resolve_of_alone rfl]
      rfl
    have known : (laterHop.scope "m/M" ["a/B"]).knownMember? .method ["a/B"] "tick" = none := rfl
    rw [Scope.overwriteFinding, Scope.find]
    simp only [show (laterHop.scope "m/M" ["a/B"]).targets = ["a/B"] from rfl, List.map_cons,
      List.map_nil, nowhere, known]
    rfl
  refine ⟨rfl, by decide, by decide, by decide, by decide, ?_⟩
  rw [found, named, missed]

end Hop

end ArchiveRemap.Mixin
