import ArchiveRemap.Proofs.Mixin.Run

/-!
Mixin classes that share a name. A hop holds one context under a name, that of the last mixin
class with it, and takes it up once ahead of the classes and once in the turn of a class. So what
comes out is put together from the contexts that are held, whatever the names of the classes are.
-/

namespace ArchiveRemap.Mixin.Hop

variable (hop : Hop)

/-- The context that a hop holds under a name. -/
def held? (nodes : List ClassNode) (className : String) : Option MixinWork :=
  nodes.reverse.findSome? fun node =>
    if node.name = className then contextOf? hop.registry node else none

theorem held?_cons (node : ClassNode) (rest : List ClassNode) (className : String) :
    hop.held? (node :: rest) className =
      (hop.held? rest className).or
        (if node.name = className then contextOf? hop.registry node else none) := by
  rw [held?, List.reverse_cons, List.findSome?_append, List.findSome?_singleton]
  rfl

section

variable {hop} {nodes before after : List ClassNode} {node : ClassNode} {work : MixinWork}
  {className : String}

theorem exists_of_held? (held : hop.held? nodes className = some work) :
    work.className = className ∧
      ∃ node ∈ nodes, node.name = className ∧ contextOf? hop.registry node = some work := by
  obtain ⟨node, listed, found⟩ := List.exists_of_findSome?_eq_some held
  split at found
  · rename_i name
    exact ⟨(className_of_contextOf? found).trans name, node, List.mem_reverse.mp listed, name,
      found⟩
  · cases found

/-- A mixin class is held unless a later one takes its place. -/
theorem held?_of_last (mixin : contextOf? hop.registry node = some work)
    (last : ∀ other ∈ after, other.name = node.name → contextOf? hop.registry other = none) :
    hop.held? (before ++ node :: after) node.name = some work := by
  have later : hop.held? after node.name = none := by
    rw [held?, List.findSome?_eq_none_iff]
    intro other listed
    split
    · rename_i same
      exact last other (List.mem_reverse.mp listed) same
    · rfl
  induction before with
  | nil => rw [List.nil_append, held?_cons, later, if_pos rfl, mixin, Option.none_or]
  | cons first rest ih => rw [List.cons_append, held?_cons, ih, Option.some_or]

end

/-! Contexts under the names of their classes. -/

structure Filed (contexts : Keyed String MixinWork) : Prop where
  distinct : (Keyed.keys contexts).Nodup
  named : ∀ pair ∈ contexts, pair.2.className = pair.1

namespace Filed

variable {contexts : Keyed String MixinWork} {work : MixinWork}

theorem empty : Filed [] := ⟨List.nodup_nil, nofun⟩

theorem put (filed : Filed contexts) : Filed (contexts.put work.className work) where
  distinct := Keyed.keys_put_nodup _ _ _ filed.distinct
  named pair listed := by
    rcases Keyed.mem_put listed with rfl | old
    · rfl
    · exact filed.named pair old

theorem mem_values_iff (filed : Filed contexts) :
    work ∈ contexts.values ↔ contexts.get? work.className = some work := by
  rw [Keyed.values, List.mem_map]
  constructor
  · rintro ⟨⟨key, _⟩, listed, rfl⟩
    rw [filed.named _ listed]
    exact Keyed.get?_of_mem filed.distinct listed
  · intro found
    exact ⟨_, Keyed.mem_of_get? found, rfl⟩

theorem map_className (filed : Filed contexts) :
    contexts.values.map (·.className) = contexts.keys := by
  rw [Keyed.values, Keyed.keys, List.map_map]
  exact List.map_congr_left filed.named

end Filed

/-! The three passes. -/

theorem foldl_collectClass_held (nodes : List ClassNode) (state : HopState)
    (filed : Filed state.contexts) :
    ∃ contexts : Keyed String MixinWork,
      nodes.foldl hop.collectClass state =
        { state with
          contexts := contexts
          notices := state.notices ++ (hop.mixins nodes).flatMap hop.listing } ∧
      Filed contexts ∧ ∀ name, contexts.get? name =
        (hop.held? nodes name).or (state.contexts.get? name) := by
  induction nodes generalizing state with
  | nil => exact ⟨state.contexts, by simp [mixins], filed, fun name => rfl⟩
  | cons node rest ih =>
      cases mixin : contextOf? hop.registry node with
      | none =>
          obtain ⟨contexts, run, well, found⟩ := ih state filed
          refine ⟨contexts, ?_, well, fun name => ?_⟩
          · rw [List.foldl_cons, collectClass_of_none hop mixin, run, mixins_cons_of_none rest mixin]
          · rw [found, held?_cons, mixin, ite_self, Option.or_none]
      | some work =>
          have name := className_of_contextOf? mixin
          have taken := @collectClass_of_some hop state node work mixin
          obtain ⟨contexts, run, well, found⟩ := ih (hop.collectClass state node)
            (by rw [taken, ← name]; exact filed.put)
          refine ⟨contexts, ?_, well, fun other => ?_⟩
          · rw [List.foldl_cons, run, taken, mixins_cons_of_some rest mixin]
            simp
          · rw [found, held?_cons, mixin, taken, Keyed.get?_put]
            by_cases same : node.name = other <;>
              cases hop.held? rest other <;> simp [same]

/-- Each context is finished in the turn of the first class with its name. -/
theorem foldl_finishNode_held (nodes : List ClassNode) (state : HopState)
    (works : String → Option MixinWork)
    (named : ∀ name work, works name = some work → work.className = name)
    (there : ∀ name, state.contexts.get? name = (works name).map hop.prepared) :
    ∃ (contexts : Keyed String MixinWork) (finished : List MixinWork),
      nodes.foldl hop.finishNode state =
        { state with
          contexts := contexts
          refmaps := finished.foldl hop.addReferences state.refmaps
          notices := state.notices ++ finished.flatMap fun work => noticesOf (hop.late work) } ∧
      (finished.map (·.className)).Nodup ∧
      ∀ work, work ∈ finished ↔
        work.className ∈ nodes.map (·.name) ∧ works work.className = some work := by
  induction nodes generalizing state works with
  | nil => exact ⟨state.contexts, [], by simp, List.nodup_nil, by simp⟩
  | cons node rest ih =>
      have own := there node.name
      cases held : works node.name with
      | none =>
          rw [held] at own
          obtain ⟨contexts, finished, run, distinct, member⟩ := ih state works named there
          refine ⟨contexts, finished, ?_, distinct, fun work => ?_⟩
          · rw [List.foldl_cons, finishNode_of_none hop own, run]
          · rw [member, List.map_cons, List.mem_cons]
            refine and_congr_left fun found => (or_iff_right fun same => ?_).symm
            rw [same, held] at found
            cases found
      | some work =>
          have name := named _ _ held
          rw [held] at own
          have taken := finishNode_of_some hop own name
          -- What is left for the other classes.
          obtain ⟨contexts, finished, run, distinct, member⟩ := ih (hop.finishNode state node)
            (fun other => if node.name = other then none else works other)
            (fun other kept found => named other kept (by
              split at found
              · cases found
              · exact found))
            (fun other => by
              rw [taken, Keyed.get?_erase, there]
              split <;> rfl)
          refine ⟨contexts, work :: finished, ?_, ?_, fun other => ?_⟩
          · rw [List.foldl_cons, run, taken]
            simp
          · rw [List.map_cons, List.nodup_cons, name]
            refine ⟨fun again => ?_, distinct⟩
            obtain ⟨other, listed, same⟩ := List.mem_map.mp again
            have found := ((member other).mp listed).2
            rw [if_pos same.symm] at found
            cases found
          · rw [List.mem_cons, member, List.map_cons, List.mem_cons]
            by_cases same : node.name = other.className
            · rw [if_pos same, ← same, held, Option.some_inj]
              simp [eq_comm]
            · have apart : other ≠ work := fun equal => same (by rw [equal, name])
              simp [same, Ne.symm same, apart]

/-! The whole hop. -/

/-- The state of a hop that has collected its classes. -/
def analyzed (nodes : List ClassNode) : HopState := nodes.foldl hop.collectClass .empty

theorem analyzed_held (nodes : List ClassNode) :
    ∃ contexts : Keyed String MixinWork,
      hop.analyzed nodes =
        { HopState.empty with
          contexts := contexts
          notices := (hop.mixins nodes).flatMap hop.listing } ∧
      Filed contexts ∧ ∀ name, contexts.get? name = hop.held? nodes name := by
  obtain ⟨contexts, run, filed, holds⟩ := hop.foldl_collectClass_held nodes .empty Filed.empty
  refine ⟨contexts, by rw [analyzed, run]; rfl, filed, fun name => ?_⟩
  rw [holds]
  exact Option.or_none

/-- Each context that is held is prepared once. -/
theorem processAll_held (nodes : List ClassNode) :
    ∃ (contexts : Keyed String MixinWork) (ahead : List MixinWork),
      hop.processAll (hop.analyzed nodes) =
        { HopState.empty with
          contexts := contexts
          renames := ahead.foldl hop.addRenames []
          notices := (hop.mixins nodes).flatMap hop.listing ++
            ahead.flatMap fun work => noticesOf (hop.early work) } ∧
      (∀ work, work ∈ ahead ↔ hop.held? nodes work.className = some work) ∧
      ∀ name, contexts.get? name = (hop.held? nodes name).map hop.prepared := by
  obtain ⟨collected, state, filed, holds⟩ := hop.analyzed_held nodes
  have member (work : MixinWork) : work ∈ byName collected.values ↔
      hop.held? nodes work.className = some work := by
    rw [(byName_perm _).mem_iff, filed.mem_values_iff, holds]
  have names : ((byName collected.values).map (·.className)).Perm collected.keys := by
    rw [← filed.map_className]
    exact (byName_perm _).map _
  obtain ⟨contexts, run, found⟩ := foldl_processNamed hop (byName collected.values)
    (hop.analyzed nodes) (names.nodup_iff.mpr filed.distinct) (by
      intro work listed
      rw [state]
      exact (holds _).trans ((member work).mp listed))
  rw [← keys_mergeSort_eq, filed.map_className] at run
  refine ⟨contexts, byName collected.values, ?_, member, fun name => ?_⟩
  · rw [processAll, state]
    rw [state] at run
    exact run
  · rw [found, state, ← holds]
    split
    · rfl
    · rename_i absent
      -- A name that is not among those of the contexts has none.
      rw [names.mem_iff, ← Keyed.get?_eq_none_iff] at absent
      rw [absent]
      rfl

theorem filed_analyzed (nodes : List ClassNode) : Filed (hop.analyzed nodes).contexts := by
  obtain ⟨contexts, state, filed, -⟩ := hop.analyzed_held nodes
  rwa [state]

theorem get?_analyzed (nodes : List ClassNode) (name : String) :
    (hop.analyzed nodes).contexts.get? name = hop.held? nodes name := by
  obtain ⟨contexts, state, -, holds⟩ := hop.analyzed_held nodes
  rw [state]
  exact holds name

theorem get?_processAll (nodes : List ClassNode) (name : String) :
    (hop.processAll (hop.analyzed nodes)).contexts.get? name =
      (hop.held? nodes name).map hop.prepared := by
  obtain ⟨contexts, ahead, state, -, there⟩ := hop.processAll_held nodes
  rw [state]
  exact there name

/-- What comes out of a hop, put together from the contexts that it holds. -/
theorem run_held (nodes : List ClassNode) :
    ∃ (contexts : Keyed String MixinWork) (ahead finished : List MixinWork),
      hop.run nodes =
        { contexts := contexts
          renames := ahead.foldl hop.addRenames []
          refmaps := finished.foldl hop.addReferences .empty
          notices := (hop.mixins nodes).flatMap hop.listing ++
            (ahead.flatMap fun work => noticesOf (hop.early work)) ++
            finished.flatMap fun work => noticesOf (hop.late work) } ∧
      (finished.map (·.className)).Nodup ∧
      (∀ work, work ∈ ahead ↔ hop.held? nodes work.className = some work) ∧
      ∀ work, work ∈ finished ↔ hop.held? nodes work.className = some work := by
  obtain ⟨prepared, ahead, processed, member, -⟩ := hop.processAll_held nodes
  obtain ⟨contexts, finished, run, distinct, listed⟩ := hop.foldl_finishNode_held nodes
    (hop.processAll (hop.analyzed nodes)) (hop.held? nodes)
    (fun name work held => (exists_of_held? held).1) (hop.get?_processAll nodes)
  refine ⟨contexts, ahead, finished, ?_, distinct, member, fun work => ?_⟩
  · have whole : hop.run nodes =
        nodes.foldl hop.finishNode (hop.processAll (hop.analyzed nodes)) := rfl
    rw [whole, run, processed]
    rfl
  · rw [listed, and_iff_right_iff_imp]
    intro held
    obtain ⟨-, node, inside, name, -⟩ := exists_of_held? held
    exact List.mem_map.mpr ⟨node, inside, name⟩

/-- The references that a hop writes for a name are those of the context that it holds. -/
theorem class?_run_held {nodes : List ClassNode} {className : String} (file : String) :
    (hop.run nodes).refmaps.class? file className =
      (hop.held? nodes className).bind fun work =>
        if hop.inputs.fileFor className = file ∧ (hop.references work).isEmpty = false
        then some (hop.references work) else none := by
  obtain ⟨contexts, ahead, finished, run, distinct, -, member⟩ := hop.run_held nodes
  rw [run]
  cases held : hop.held? nodes className with
  | none =>
      refine class?_foldl_of_absent hop (fun listed => ?_) .empty file
      obtain ⟨work, inside, rfl⟩ := List.mem_map.mp listed
      cases held.symm.trans ((member work).mp inside)
  | some work =>
      have name := (exists_of_held? held).1
      subst name
      exact class?_foldl hop distinct ((member work).mpr held) (fun _ => Refmaps.class?_empty ..)
        file

end ArchiveRemap.Mixin.Hop
