import Mathlib.Data.List.Basic
import ArchiveRemap.Proofs.Mixin.Handed
import ArchiveRemap.Proofs.Mixin.KnownMember

/-!
Symbols of one class with the same key. The references of a class stand in one flat map whatever
they are for, and each takes the place of the one that was there. So the last symbol that has a
reference for a key decides. Two symbols of most kinds have the same reference if they have the
same key; but accessors and invokers go by their descriptors too, and between kinds nothing is
the same but the key.
-/

namespace ArchiveRemap.Mixin

namespace Symbol

/-- Two symbols of a kind that ask for the same if they share a key. What string targets, method
targets, point targets and class arguments stand for depends on nothing but the key; accessors and
invokers are looked up by names and a descriptor. -/
def Alike : Symbol → Symbol → Prop
  | .mixinTarget _, .mixinTarget _ => True
  | .methodTarget _ _, .methodTarget _ _ => True
  | .pointTarget _ _, .pointTarget _ _ => True
  | .classArgument _ _, .classArgument _ _ => True
  | .accessor names desc, .accessor others again => names = others ∧ desc = again
  | .invoker names desc, .invoker others again => names = others ∧ desc = again
  | _, _ => False

def isMixinTarget : Symbol → Bool
  | .mixinTarget _ => true
  | _ => false

theorem Alike.isMixinTarget_eq {one other : Symbol} (alike : one.Alike other) :
    one.isMixinTarget = other.isMixinTarget := by
  cases one <;> cases other <;> first | rfl | cases alike

end Symbol

/-! What one symbol gives. -/

namespace Scope

variable {scope : Scope} {key value shown : String}

theorem entry_mem_pointFindings_iff (label other : String) {target : String} :
    .entry key value ∈ scope.pointFindings label target ↔
      .entry key value ∈ scope.pointFindings other target := by
  unfold pointFindings
  split
  · unfold pointMemberFinding
    split <;> simp [failure_ne_entry]
  · exact Iff.rfl
  · unfold pointClassFinding
    dsimp only
    split
    · exact Iff.rfl
    · split <;> simp [warn]

theorem entry_mem_classArgumentFindings_iff (label other : String) {argument : String} :
    .entry key value ∈ scope.classArgumentFindings label argument ↔
      .entry key value ∈ scope.classArgumentFindings other argument := by
  unfold classArgumentFindings
  split
  · exact Iff.rfl
  · dsimp only
    split
    · exact Iff.rfl
    · split <;> simp [warn]

theorem value_unique_singleton {finding : Finding} {other : String}
    (first : .entry key value ∈ [finding]) (second : .entry other shown ∈ [finding]) :
    value = shown := by
  cases (List.mem_singleton.mp first).trans (List.mem_singleton.mp second).symm
  rfl

/-- A symbol gives one value, under whatever key. -/
theorem value_unique {symbol : Symbol} {other : String} :
    .entry key value ∈ scope.symbolFindings symbol →
      .entry other shown ∈ scope.symbolFindings symbol → value = shown := by
  cases symbol with
  | mixinTarget name => exact value_unique_singleton
  | methodTarget label target =>
      simp only [symbolFindings, entry_mem_methodTargetFindings]
      rintro ⟨-, -, there, found, rfl⟩ ⟨-, -, again, same, rfl⟩
      rw [found, Option.some_inj] at same
      rw [same]
  | pointTarget label target =>
      unfold symbolFindings pointFindings
      dsimp only
      split
      · exact value_unique_singleton
      · split
        · intro given
          cases given
        · exact value_unique_singleton
      · exact value_unique_singleton
  | classArgument label argument =>
      unfold symbolFindings classArgumentFindings
      dsimp only
      split
      · intro given
        cases given
      · split
        · exact value_unique_singleton
        · split <;> exact value_unique_singleton
  | accessor names desc =>
      unfold symbolFindings accessorFindings
      dsimp only
      split
      · unfold capitalEntry
        split
        · simp only [List.cons_append, List.nil_append, List.mem_cons, List.not_mem_nil, or_false,
            Finding.entry.injEq]
          rintro (⟨-, rfl⟩ | ⟨-, rfl⟩) (⟨-, rfl⟩ | ⟨-, rfl⟩) <;> rfl
        · exact value_unique_singleton
      · exact value_unique_singleton
  | invoker names desc =>
      unfold symbolFindings invokerFindings
      dsimp only
      split <;> exact value_unique_singleton
  | shadow kind name desc marker => exact value_unique_singleton
  | overwrite name desc => exact value_unique_singleton

/-- A reference stands under a key of its symbol. -/
theorem key_of_entry {symbol : Symbol} (given : .entry key value ∈ scope.symbolFindings symbol) :
    key ∈ symbol.keys ∨ key ∈ symbol.capitals := by
  cases symbol with
  | mixinTarget name => exact (covers_mixinTarget name).keyed key value given
  | methodTarget label target =>
      rw [symbolFindings, entry_mem_methodTargetFindings] at given
      exact .inl (List.mem_singleton.mpr given.2.1)
  | pointTarget label target => exact (covers_pointTarget label target).keyed key value given
  | classArgument label argument =>
      cases argued : isClassArgument argument with
      | true => exact (covers_classArgument label argued).keyed key value given
      | false =>
          rw [symbolFindings, scope.classArgumentFindings_of_other argued] at given
          cases given
  | accessor names desc => exact (covers_accessor names desc).keyed key value given
  | invoker names desc => exact (covers_invoker names desc).keyed key value given
  | shadow kind name desc marker =>
      exact (covers_shadow kind name desc marker).keyed key value given
  | overwrite name desc => exact (covers_overwrite name desc).keyed key value given

theorem argument_of_key {label argument : String}
    (ours : key ∈ (Symbol.classArgument label argument).keys) :
    argument.toList = "class=".toList ++ key.toList := by
  rw [Symbol.keys, Option.mem_toList, Option.map_eq_some_iff] at ours
  obtain ⟨rest, cut, rfl⟩ := ours
  exact (Text.dropHead?_eq_some_iff.mp cut).trans (congrArg _ String.toList_ofList.symm)

/-- Two symbols that are alike give the same value under the same key. -/
theorem value_of_alike {one other : Symbol} (alike : one.Alike other)
    (first : .entry key value ∈ scope.symbolFindings one)
    (second : .entry key shown ∈ scope.symbolFindings other) : value = shown := by
  have ours := key_of_entry first
  have theirs := key_of_entry second
  cases one <;> cases other <;> try exact False.elim alike
  case mixinTarget name other =>
      simp only [Symbol.keys, Symbol.capitals, List.mem_singleton, List.not_mem_nil, or_false]
        at ours theirs
      rw [← ours] at first
      rw [← theirs] at second
      exact value_unique first second
  case methodTarget label target again other =>
      rw [symbolFindings, entry_mem_methodTargetFindings] at first
      rw [symbolFindings, entry_mem_methodTargetFindings] at second
      obtain ⟨-, rfl, there, found, rfl⟩ := first
      obtain ⟨-, rfl, another, same, rfl⟩ := second
      rw [found, Option.some_inj] at same
      rw [same]
  case pointTarget label target again other =>
      simp only [Symbol.keys, Symbol.capitals, List.mem_singleton, List.not_mem_nil, or_false]
        at ours theirs
      rw [← ours, symbolFindings, entry_mem_pointFindings_iff label again] at first
      rw [← theirs] at second
      exact value_unique first second
  case accessor names desc others again =>
      obtain ⟨rfl, rfl⟩ := alike
      exact value_unique first second
  case invoker names desc others again =>
      obtain ⟨rfl, rfl⟩ := alike
      exact value_unique first second
  case classArgument label argument again other =>
      have same : argument = other := by
        rw [← String.toList_inj, argument_of_key (ours.resolve_right List.not_mem_nil),
          argument_of_key (theirs.resolve_right List.not_mem_nil)]
      rw [same, symbolFindings, entry_mem_classArgumentFindings_iff label again] at first
      exact value_unique first second

end Scope

/-! References that are put into a map one after the other. -/

theorem foldl_addEntry_of_unkeyed {findings : List Finding}
    (unkeyed : ∀ key value, Finding.entry key value ∉ findings) (entries : ClassEntries) :
    findings.foldl Finding.addEntry entries = entries := by
  induction findings with
  | nil => rfl
  | cons finding rest ih =>
      have kept : Finding.addEntry entries finding = entries := by
        cases finding with
        | entry key value => exact absurd List.mem_cons_self (unkeyed key value)
        | _ => rfl
      rw [List.foldl_cons, kept]
      exact ih fun key value later => unkeyed key value (List.mem_cons_of_mem _ later)

theorem get?_foldl_addEntry_of_absent {findings : List Finding} {key : String}
    (absent : ∀ value, Finding.entry key value ∉ findings) (entries : ClassEntries) :
    (findings.foldl Finding.addEntry entries).get? key = entries.get? key := by
  induction findings generalizing entries with
  | nil => rfl
  | cons finding rest ih =>
      rw [List.foldl_cons, ih fun value later => absent value (List.mem_cons_of_mem _ later)]
      cases finding with
      | entry other value =>
          refine (Dictionary.get?_insert ..).trans (if_neg ?_)
          rintro rfl
          exact absent value List.mem_cons_self
      | _ => rfl

theorem get?_foldl_addEntry_of_unique {findings : List Finding} {key value : String}
    (given : Finding.entry key value ∈ findings)
    (unique : ∀ shown, Finding.entry key shown ∈ findings → shown = value)
    (entries : ClassEntries) :
    (findings.foldl Finding.addEntry entries).get? key = some value := by
  induction findings generalizing entries with
  | nil => cases given
  | cons finding rest ih =>
      rw [List.foldl_cons]
      by_cases again : Finding.entry key value ∈ rest
      · exact ih again (fun shown later => unique shown (List.mem_cons_of_mem _ later)) _
      · have last := (List.mem_cons.mp given).resolve_right again
        subst last
        rw [get?_foldl_addEntry_of_absent]
        · exact (Dictionary.get?_insert ..).trans (if_pos rfl)
        · intro shown later
          exact again (unique shown (List.mem_cons_of_mem _ later) ▸ later)

/-! The symbols of a class in the order in which they are resolved. -/

/-- A symbol and what it is resolved against. -/
structure Asked where
  scope : Scope
  symbol : Symbol

def Asked.findings (asked : Asked) : List Finding := asked.scope.symbolFindings asked.symbol

def Handover.asked (given : Handover) : List Asked := given.task.symbols.map (⟨given.scope, ·⟩)

theorem Task.isMixinTarget_of_mem {task : Task} {symbol : Symbol} (member : symbol ∈ task.symbols) :
    symbol.isMixinTarget = decide (task.resolver = .strings) := by
  cases task <;> simp only [Task.symbols, List.mem_map, List.mem_append, List.mem_singleton]
    at member <;> grind [Symbol.isMixinTarget, Task.resolver]

namespace Hop

variable {hop : Hop} {node : ClassNode} {work : MixinWork} {asked : Asked}

/-- The symbols of a class, string targets first. -/
def resolved (hop : Hop) (work : MixinWork) : List Asked :=
  (hop.given work).flatMap Handover.asked

theorem symbols_resolved (hop : Hop) (work : MixinWork) :
    (hop.resolved work).map (·.symbol) =
      (tasksFor .strings work.tasks ++ tasksFor .members work.tasks ++
        tasksFor .symbols work.tasks).flatMap Task.symbols := by
  rw [resolved, given_eq]
  simp only [List.flatMap_append, List.map_append, List.flatMap_map, List.map_flatMap,
    Handover.asked, List.map_map, Function.comp_def, List.map_id']

theorem findings_resolved (hop : Hop) (work : MixinWork) :
    hop.early work ++ hop.late work = (hop.resolved work).flatMap Asked.findings := by
  have whole : hop.early work ++ hop.late work =
      (hop.given work).flatMap Handover.findings := by
    rw [given, List.flatMap_append, early_eq_givenAhead, late, findings_finishClass]
  rw [whole, resolved, List.flatMap_assoc]
  refine List.flatMap_congr fun one member => ?_
  rw [Handover.findings, (mem_given.mp member).2.1, Task.findings_resolver, Handover.asked,
    List.flatMap_map]
  rfl

theorem scope_of_mem_resolved (member : asked ∈ hop.resolved work) :
    asked.scope = hop.scope work.className
      (if asked.symbol.isMixinTarget then [] else (hop.prepared work).targets) := by
  obtain ⟨one, given, asks⟩ := List.mem_flatMap.mp member
  obtain ⟨symbol, ours, rfl⟩ := List.mem_map.mp asks
  obtain ⟨-, own, scope⟩ := mem_given.mp given
  rw [scope, Task.isMixinTarget_of_mem ours, own]
  simp only [decide_eq_true_eq]

theorem references_eq (fresh : work.entries = .empty) :
    hop.references work = ((hop.resolved work).flatMap Asked.findings).foldl Finding.addEntry
      .empty := by
  have prepared : (hop.prepared work).entries = (hop.early work).foldl Finding.addEntry .empty := by
    simp only [Hop.prepared, early, processClass, List.foldl_append, fresh]
    exact (foldl_addEntry_of_unkeyed (entry_not_mem_hardFindings _ _) _).symm
  have finished : hop.references work =
      (hop.late work).foldl Finding.addEntry (hop.prepared work).entries := rfl
  rw [finished, prepared, ← List.foldl_append, findings_resolved]

/-- The last symbol with a reference for a key decides. -/
theorem get?_references_of_last (fresh : work.entries = .empty) {earlier later : List Asked}
    {key value : String} (order : hop.resolved work = earlier ++ asked :: later)
    (given : .entry key value ∈ asked.findings)
    (last : ∀ other ∈ later, ∀ shown, .entry key shown ∉ other.findings) :
    (hop.references work).get? key = some value := by
  rw [references_eq fresh, order, List.flatMap_append, List.flatMap_cons, List.foldl_append,
    List.foldl_append, get?_foldl_addEntry_of_absent]
  · exact get?_foldl_addEntry_of_unique given (fun shown again => Scope.value_unique again given) _
  · intro shown found
    obtain ⟨other, listed, again⟩ := List.mem_flatMap.mp found
    exact last other listed shown again

/-- Among symbols that come later there is a last one with a reference for a key, unless none
has one. -/
theorem exists_last (later : List Asked) (key : String) :
    (∀ other ∈ later, ∀ shown, .entry key shown ∉ other.findings) ∨
      ∃ middle other rest shown, later = middle ++ other :: rest ∧
        .entry key shown ∈ other.findings ∧
          ∀ after ∈ rest, ∀ value, .entry key value ∉ after.findings := by
  induction later with
  | nil => exact .inl nofun
  | cons first rest ih =>
      rcases ih with none | ⟨middle, other, after, shown, order, given, last⟩
      · by_cases given : ∃ shown, .entry key shown ∈ first.findings
        · obtain ⟨shown, given⟩ := given
          exact .inr ⟨[], first, rest, shown, rfl, given, none⟩
        · exact .inl (List.forall_mem_cons.mpr ⟨not_exists.mp given, none⟩)
      · exact .inr ⟨first :: middle, other, after, shown, congrArg _ order, given, last⟩

theorem class?_of_reference {nodes : List ClassNode} {className key value : String}
    (held : hop.held? nodes className = some work)
    (found : (hop.references work).get? key = some value) :
    (hop.run nodes).refmaps.class? (hop.inputs.fileFor className) className =
      some (hop.references work) := by
  have filled : (hop.references work).isEmpty = false :=
    Dictionary.isEmpty_eq_false_iff.mpr ⟨key, Option.isSome_of_eq_some found⟩
  rw [class?_run_held, held, Option.bind_some, if_pos ⟨rfl, filled⟩]

/-- String targets are resolved first, then everything else in the order of the collection. If a
symbol has a reference for a key, the class comes out with that reference under the key, or with
the one of the last symbol behind it that has another for the key. That symbol is of another
kind, or it is an accessor or an invoker that asks for something else. -/
theorem last_reference_stands (hop : Hop) {node : ClassNode} {work : MixinWork}
    (mixin : contextOf? hop.registry node = some work) :
    (hop.resolved work).map (·.symbol) =
      (tasksFor .strings work.tasks ++ tasksFor .members work.tasks ++
        tasksFor .symbols work.tasks).flatMap Task.symbols ∧
    ∀ earlier one later key value, hop.resolved work = earlier ++ one :: later →
      .entry key value ∈ one.findings → ∀ before after,
        (∀ other ∈ after, other.name = node.name → contextOf? hop.registry other = none) →
        ∃ entries,
          (hop.run (before ++ node :: after)).refmaps.class? (hop.inputs.fileFor node.name)
            node.name = some entries ∧
          (entries.get? key = some value ∨
            ∃ middle other rest shown, later = middle ++ other :: rest ∧
              .entry key shown ∈ other.findings ∧ entries.get? key = some shown ∧
              (∀ behind ∈ rest, ∀ value, .entry key value ∉ behind.findings) ∧
              ¬ one.symbol.Alike other.symbol) := by
  refine ⟨hop.symbols_resolved work, fun earlier one later key value order given before after last =>
    ?_⟩
  have fresh := entries_of_contextOf? mixin
  have held : hop.held? (before ++ node :: after) node.name = some work :=
    held?_of_last mixin last
  rcases exists_last later key with none | ⟨middle, other, rest, shown, behind, again, none⟩
  · have found := get?_references_of_last fresh order given none
    exact ⟨_, class?_of_reference held found, .inl found⟩
  · have whole : hop.resolved work = (earlier ++ one :: middle) ++ other :: rest := by
      rw [order, behind, List.append_assoc, List.cons_append]
    have found := get?_references_of_last fresh whole again none
    refine ⟨_, class?_of_reference held found, ?_⟩
    by_cases alike : one.symbol.Alike other.symbol
    · -- Symbols that are alike are resolved against the same, so the key decides.
      have ours : one ∈ hop.resolved work := order ▸ List.mem_append_right _ List.mem_cons_self
      have theirs : other ∈ hop.resolved work := by
        rw [order, behind]
        exact List.mem_append_right _ (List.mem_cons_of_mem _
          (List.mem_append_right _ List.mem_cons_self))
      have same : other.scope = one.scope := by
        rw [scope_of_mem_resolved ours, scope_of_mem_resolved theirs, alike.isMixinTarget_eq]
      rw [Asked.findings, same] at again
      rw [Scope.value_of_alike alike given again]
      exact .inl found
    · exact .inr ⟨middle, other, rest, shown, behind, again, found, none, alike⟩

/-! A mixin with pairs of symbols that share a key: two accessors, an accessor and an injector,
and two invokers. -/

def collidingMixin : ClassNode :=
  let accessor (method desc : String) (values : List (String × Element)) : MemberNode :=
    ⟨0, method, desc, [⟨"Lorg/spongepowered/asm/mixin/gen/Accessor;", values⟩]⟩
  let invoker (method desc : String) : MemberNode :=
    ⟨0, method, desc, [⟨"Lorg/spongepowered/asm/mixin/gen/Invoker;", [("value", .string "run")]⟩]⟩
  { name := "m/M", access := 0, superName := none, interfaces := []
    annotations := [⟨"Lorg/spongepowered/asm/mixin/Mixin;", [("value", .array [.type "La;"])]⟩]
    fields := []
    methods :=
      [accessor "getBig" "()J" [("value", .string "X")], accessor "getX" "()I" [],
        accessor "getTick" "()I" [],
        ⟨0, "onTick", "()V", [⟨"Lorg/spongepowered/asm/mixin/injection/Inject;",
          [("method", .string "tick")]⟩]⟩,
        invoker "callRun" "()V", invoker "callRunAt" "(I)V"] }

def collidingWork : MixinWork :=
  ⟨"m/M", ["a"], [.accessor ["X"] "()J", .accessor ["x", "X"] "()I",
    .accessor ["tick", "Tick"] "()I", .methodTargets "@Inject" ["tick"],
    .invoker ["run"] "()V", .invoker ["run"] "(I)V"], .empty⟩

def collidingRenamer : Renamer :=
  ⟨⟨"official", "named",
    [("a", ⟨"A", [⟨"x", "I", "small"⟩, ⟨"X", "J", "big"⟩, ⟨"tick", "I", "ticks"⟩],
      [⟨"tick", "()V", "advance"⟩, ⟨"run", "()V", "start"⟩, ⟨"run", "(I)V", "startAt"⟩]⟩)]⟩,
    ⟨[("a", ⟨"a", none, [], [⟨"x", "I"⟩, ⟨"X", "J"⟩, ⟨"tick", "I"⟩],
      [⟨"tick", "()V"⟩, ⟨"run", "()V"⟩, ⟨"run", "(I)V"⟩]⟩)]⟩⟩

/-- A hop in which a config lists the mixin. -/
def collidingHop : Hop :=
  ⟨.standard false, .standard,
    ((Inputs.empty "refmap.json").assignClass "refmap.json" "m/M").1, collidingRenamer⟩

def collidingScope : Scope := collidingHop.scope "m/M" ["a"]

theorem resolve_colliding :
    collidingScope.renamer.hierarchy.resolve = fun query owner _ mode =>
      collidingScope.renamer.hierarchy.resolve query owner false mode := by
  refine Hierarchy.resolve_eq_of_alone fun owner => ?_
  simp only [collidingScope, collidingHop, collidingRenamer, scope, Hierarchy.parents,
    Hierarchy.class?, Keyed.get?]
  by_cases known : "a" = owner <;> simp only [known, if_true, if_false]
  rfl

/-- What the symbols of the mixin give, in their order. -/
theorem late_colliding :
    collidingHop.late collidingWork =
      [.entry "X" "big:J", .entry "X" "big:J", .entry "X" "small:I", .entry "x" "small:I",
        .entry "tick" "ticks:I", .entry "tick" "LA;advance()V", .entry "run" "start()V",
        .entry "run" "startAt(I)V"] := by
  have soft : collidingHop.late collidingWork =
      collidingScope.accessorFindings ["X"] "()J" ++
        (collidingScope.accessorFindings ["x", "X"] "()I" ++
          (collidingScope.accessorFindings ["tick", "Tick"] "()I" ++
            (collidingScope.methodTargetFindings "@Inject" "tick" ++
              (collidingScope.invokerFindings ["run"] "()V" ++
                collidingScope.invokerFindings ["run"] "(I)V")))) := by
    simp [late, finishClass, prepared, processClass, takeTasks, collidingWork, Task.runsFirst,
      Task.isHard, extendTargets, Scope.softFindings, Scope.softTaskFindings, collidingScope]
  rw [soft]
  unfold Scope.accessorFindings Scope.invokerFindings Scope.methodTargetFindings Scope.find
    Scope.knownMember? Scope.lookup
  rw [resolve_colliding]
  decide +kernel

theorem last_reference_stands_colliding :
    (collidingHop.resolved collidingWork).map (·.symbol) =
      (tasksFor .strings collidingWork.tasks ++ tasksFor .members collidingWork.tasks ++
        tasksFor .symbols collidingWork.tasks).flatMap Task.symbols ∧
    ∃ entries,
      (collidingHop.run [collidingMixin]).refmaps.class? (collidingHop.inputs.fileFor "m/M")
        "m/M" = some entries ∧
      (entries.get? "X" = some "big:J" ∨
        ∃ middle other rest shown,
          (collidingHop.resolved collidingWork).tail = middle ++ other :: rest ∧
            .entry "X" shown ∈ other.findings ∧ entries.get? "X" = some shown ∧
            (∀ behind ∈ rest, ∀ value, .entry "X" value ∉ behind.findings) ∧
            ¬ (Symbol.accessor ["X"] "()J").Alike other.symbol) := by
  have given : Finding.entry "X" "big:J" ∈ collidingScope.accessorFindings ["X"] "()J" := by
    unfold Scope.accessorFindings Scope.find Scope.knownMember? Scope.lookup
    rw [resolve_colliding]
    decide +kernel
  have whole := @last_reference_stands collidingHop collidingMixin collidingWork rfl
  exact ⟨whole.1, whole.2 [] ⟨collidingScope, .accessor ["X"] "()J"⟩ _ _ _ rfl given [] [] nofun⟩

theorem notices_run_of_single (mixin : contextOf? hop.registry node = some work) :
    (hop.run [node]).notices =
      hop.listing work ++ noticesOf (hop.early work) ++ noticesOf (hop.late work) := by
  obtain ⟨contexts, run⟩ := runIn_spec hop (List.Perm.refl [node]) (by simp)
  have only : hop.mixins [node] = [work] := mixins_cons_of_some [] mixin
  rw [run_eq_runIn, run, only, byName, List.mergeSort_singleton]
  simp only [List.flatMap_singleton]

/-- The first accessor, the third one and the first invoker give references that are gone after
the hop, and nothing is told. -/
theorem references_replaced_unnoticed :
    contextOf? collidingHop.registry collidingMixin = some collidingWork ∧
    (∀ finding ∈ [Finding.entry "X" "big:J", .entry "tick" "ticks:I", .entry "run" "start()V"],
      ∃ asked ∈ collidingHop.resolved collidingWork, finding ∈ asked.findings) ∧
    (collidingHop.run [collidingMixin]).refmaps.class?
        (collidingHop.inputs.fileFor "m/M") "m/M" =
      some (.ofList [("X", "small:I"), ("run", "startAt(I)V"), ("tick", "LA;advance()V"),
        ("x", "small:I")]) ∧
    (collidingHop.run [collidingMixin]).notices = [] := by
  have references : collidingHop.references collidingWork =
      .ofList [("X", "small:I"), ("run", "startAt(I)V"), ("tick", "LA;advance()V"),
        ("x", "small:I")] := by
    have finished : collidingHop.references collidingWork =
        (collidingHop.late collidingWork).foldl Finding.addEntry .empty := rfl
    rw [finished, late_colliding]
    decide +kernel
  have mixin : contextOf? collidingHop.registry collidingMixin = some collidingWork := rfl
  refine ⟨mixin, fun finding listed => ?_, ?_, ?_⟩
  · have late : finding ∈ collidingHop.late collidingWork := by
      rw [late_colliding]
      simp only [List.mem_cons, List.not_mem_nil, or_false] at listed
      rcases listed with rfl | rfl | rfl <;> simp
    have found : finding ∈ (collidingHop.resolved collidingWork).flatMap Asked.findings := by
      rw [← findings_resolved]
      exact List.mem_append_right _ late
    exact List.mem_flatMap.mp found
  · have held : collidingHop.held? [collidingMixin] "m/M" = some collidingWork := rfl
    have found : (collidingHop.references collidingWork).get? "X" = some "small:I" := by
      rw [references]
      decide +kernel
    exact (class?_of_reference held found).trans (congrArg some references)
  · have early : collidingHop.early collidingWork = [] := rfl
    rw [notices_run_of_single mixin, early, late_colliding]
    decide +kernel

end Hop

end ArchiveRemap.Mixin
