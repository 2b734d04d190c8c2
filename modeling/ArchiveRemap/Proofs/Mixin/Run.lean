import ArchiveRemap.Mixin.Hop

/-!
The work on mixins taken apart class by class. Classes with distinct names do not meet in
the state of a hop: each keeps its own context, and what comes out is put together from what
single classes find. Collecting and finishing go over the classes in two orders that need
not be the same, and the work in between goes by name.
-/

namespace ArchiveRemap.Mixin

theorem className_of_contextOf? {registry : Registry} {node : ClassNode} {work : MixinWork}
    (mixin : contextOf? registry node = some work) : work.className = node.name := by
  obtain ⟨_, _, made⟩ := Option.bind_eq_some_iff.mp mixin
  cases made
  rfl

theorem entries_of_contextOf? {registry : Registry} {node : ClassNode} {work : MixinWork}
    (mixin : contextOf? registry node = some work) : work.entries = .empty := by
  obtain ⟨_, _, made⟩ := Option.bind_eq_some_iff.mp mixin
  cases made
  rfl

namespace Refmaps

/-- What the maps hold for a class in one file. -/
def class? (refmaps : Refmaps) (file className : String) : Option ClassEntries :=
  (refmaps.get? file).bind fun refmap => refmap.class? className

theorem class?_empty (file className : String) : class? .empty file className = none := rfl

theorem class?_extend (refmap : ReferenceMap) (className other : String)
    {entries : ClassEntries} (filled : entries.isEmpty = false) :
    (refmap.extend className entries).class? other =
      if className = other then
        some (((refmap.class? className).getD .empty).insertAll entries.entries)
      else refmap.class? other := by
  rw [ReferenceMap.extend, if_neg (by simp [filled])]
  exact Dictionary.get?_insert ..

theorem class?_add_of_ne (refmaps : Refmaps) (file : String) {className other : String}
    (different : className ≠ other) (entries : ClassEntries) (place : String) :
    (refmaps.add file className entries).class? place other = refmaps.class? place other := by
  unfold add
  cases filled : entries.isEmpty with
  | true => rfl
  | false =>
      simp only [class?, Dictionary.get?_insert, Bool.false_eq_true, if_false]
      by_cases here : file = place
      · subst here
        simp only [if_true, Option.bind_some, class?_extend _ _ _ filled, if_neg different]
        cases refmaps.get? file <;> rfl
      · simp only [if_neg here]

/-- References of a class join those that their file holds already. -/
theorem class?_add_self (refmaps : Refmaps) (file className : String) (entries : ClassEntries)
    (place : String) :
    (refmaps.add file className entries).class? place className =
      if file = place ∧ entries.isEmpty = false then
        some (((refmaps.class? place className).getD .empty).insertAll entries.entries)
      else refmaps.class? place className := by
  unfold add
  cases filled : entries.isEmpty with
  | true => simp
  | false =>
      simp only [class?, Dictionary.get?_insert, Bool.false_eq_true, if_false]
      by_cases here : file = place
      · subst here
        simp only [if_true, Option.bind_some, class?_extend _ _ _ filled, and_self]
        cases refmaps.get? file <;> rfl
      · simp [here]

/-- References of a class that no file holds yet come into their file as they are. -/
theorem class?_add_of_new {refmaps : Refmaps} {className : String}
    (new : ∀ file, refmaps.class? file className = none) (file : String)
    (entries : ClassEntries) (place : String) :
    (refmaps.add file className entries).class? place className =
      if file = place ∧ entries.isEmpty = false then some entries else none := by
  rw [class?_add_self, new]
  exact congrArg (fun found => if file = place ∧ entries.isEmpty = false then some found else none)
    (Dictionary.ofList_entries entries)

end Refmaps

namespace Hop

variable (hop : Hop)

/-! What one class comes to. -/

/-- A class after the work that comes ahead of the classes. -/
def prepared (work : MixinWork) : MixinWork := (hop.processClass work).1

/-- What a class finds ahead of the classes. -/
def early (work : MixinWork) : List Finding := (hop.processClass work).2

/-- What a class finds in its own turn. -/
def late (work : MixinWork) : List Finding := (hop.finishClass (hop.prepared work)).2

/-- The references of a class. -/
def references (work : MixinWork) : ClassEntries := (hop.finishClass (hop.prepared work)).1

def listing (work : MixinWork) : List Notice :=
  if hop.inputs.lists work.className then [] else [unlisted work.className]

def addRenames (renames : Renames) (work : MixinWork) : Renames :=
  (hop.early work).foldl Finding.addRename renames

def addReferences (refmaps : Refmaps) (work : MixinWork) : Refmaps :=
  refmaps.add (hop.inputs.fileFor work.className) work.className (hop.references work)

/-- The mixin classes among some classes. -/
def mixins (nodes : List ClassNode) : List MixinWork :=
  nodes.filterMap (contextOf? hop.registry)

def byName (works : List MixinWork) : List MixinWork :=
  works.mergeSort fun left right => left.className ≤ right.className

/-- A hop that collects its classes in one order and finishes them in another. -/
def runIn (collected finished : List ClassNode) : HopState :=
  finished.foldl hop.finishNode (hop.processAll (collected.foldl hop.collectClass .empty))

theorem run_eq_runIn (nodes : List ClassNode) : hop.run nodes = hop.runIn nodes nodes := rfl

section

variable {hop}

theorem mem_mixins {nodes : List ClassNode} {work : MixinWork} :
    work ∈ hop.mixins nodes ↔ ∃ node ∈ nodes, contextOf? hop.registry node = some work :=
  List.mem_filterMap

theorem mixins_cons_of_none {node : ClassNode} (nodes : List ClassNode)
    (plain : contextOf? hop.registry node = none) :
    hop.mixins (node :: nodes) = hop.mixins nodes :=
  List.filterMap_cons_none plain

theorem mixins_cons_of_some {node : ClassNode} {work : MixinWork} (nodes : List ClassNode)
    (mixin : contextOf? hop.registry node = some work) :
    hop.mixins (node :: nodes) = work :: hop.mixins nodes :=
  List.filterMap_cons_some mixin

end

theorem byName_perm (works : List MixinWork) : (byName works).Perm works :=
  List.mergeSort_perm _ _

/-- The names of mixin classes are among the names of all classes, in their order. -/
theorem map_className_sublist (nodes : List ClassNode) :
    ((hop.mixins nodes).map (·.className)).Sublist (nodes.map (·.name)) := by
  induction nodes with
  | nil => exact .slnil
  | cons node rest ih =>
      cases mixin : contextOf? hop.registry node with
      | none =>
          rw [mixins_cons_of_none rest mixin]
          exact ih.cons _
      | some work =>
          rw [mixins_cons_of_some rest mixin, List.map_cons, List.map_cons,
            className_of_contextOf? mixin]
          exact ih.cons_cons _

/-! What one step of a hop does. A class of which nothing is known is left out. -/

section

variable {state : HopState} {node : ClassNode} {work : MixinWork}

theorem collectClass_of_none (plain : contextOf? hop.registry node = none) :
    hop.collectClass state node = state := by
  rw [collectClass, plain]

theorem collectClass_of_some (mixin : contextOf? hop.registry node = some work) :
    hop.collectClass state node =
      { state with
        contexts := state.contexts.put node.name work
        notices := state.notices ++ hop.listing work } := by
  rw [collectClass, mixin, listing, className_of_contextOf? mixin]

theorem processNamed_of_some (there : state.contexts.get? work.className = some work) :
    hop.processNamed state work.className =
      { state with
        contexts := state.contexts.put work.className (hop.prepared work)
        renames := hop.addRenames state.renames work
        notices := state.notices ++ noticesOf (hop.early work) } := by
  rw [processNamed, there]
  rfl

theorem finishNode_of_none (absent : state.contexts.get? node.name = none) :
    hop.finishNode state node = state := by
  rw [finishNode, absent]

theorem finishNode_of_some (there : state.contexts.get? node.name = some (hop.prepared work))
    (name : work.className = node.name) :
    hop.finishNode state node =
      { state with
        contexts := state.contexts.erase node.name
        refmaps := hop.addReferences state.refmaps work
        notices := state.notices ++ noticesOf (hop.late work) } := by
  rw [finishNode, there, addReferences, name]
  rfl

end

/-! Collecting. -/

theorem foldl_collectClass (nodes : List ClassNode) (state : HopState)
    (distinct : (Keyed.keys state.contexts ++ nodes.map (·.name)).Nodup) :
    nodes.foldl hop.collectClass state =
      { state with
        contexts := state.contexts ++
          (hop.mixins nodes).map fun work => (work.className, work)
        notices := state.notices ++ (hop.mixins nodes).flatMap hop.listing } := by
  induction nodes generalizing state with
  | nil => simp [mixins]
  | cons node rest ih =>
      rw [List.foldl_cons]
      cases mixin : contextOf? hop.registry node with
      | none =>
          rw [collectClass_of_none hop mixin, mixins_cons_of_none rest mixin]
          refine ih state (distinct.sublist ?_)
          exact (List.Sublist.refl _).append (List.sublist_cons_self _ _)
      | some work =>
          have name := className_of_contextOf? mixin
          -- No class before had this name, so the context joins at the end.
          have fresh : node.name ∉ Keyed.keys state.contexts := fun old =>
            (List.nodup_append.mp distinct).2.2 _ old _ List.mem_cons_self rfl
          rw [collectClass_of_some hop mixin, Keyed.put_of_fresh fresh,
            ih _ (by simpa [Keyed.keys] using distinct), mixins_cons_of_some rest mixin]
          simp [name]

/-! The work ahead of the classes. -/

theorem foldl_processNamed (works : List MixinWork) (state : HopState)
    (distinct : (works.map (·.className)).Nodup)
    (there : ∀ work ∈ works, state.contexts.get? work.className = some work) :
    ∃ contexts : Keyed String MixinWork,
      (works.map (·.className)).foldl hop.processNamed state =
        { state with
          contexts := contexts
          renames := works.foldl hop.addRenames state.renames
          notices := state.notices ++ works.flatMap fun work => noticesOf (hop.early work) } ∧
      ∀ name, contexts.get? name =
        if name ∈ works.map (·.className) then
          (state.contexts.get? name).map hop.prepared
        else state.contexts.get? name := by
  induction works generalizing state with
  | nil => exact ⟨state.contexts, by simp, by simp⟩
  | cons work rest ih =>
      obtain ⟨fresh, others⟩ := List.nodup_cons.mp distinct
      have processed := processNamed_of_some hop (there work List.mem_cons_self)
      have apart : ∀ later ∈ rest, work.className ≠ later.className := fun later member same =>
        fresh (List.mem_map.mpr ⟨later, member, same.symm⟩)
      obtain ⟨contexts, run, found⟩ := ih (hop.processNamed state work.className) others
        (by
          intro later member
          rw [processed, Keyed.get?_put, if_neg (apart later member)]
          exact there later (List.mem_cons_of_mem _ member))
      refine ⟨contexts, ?_, fun name => ?_⟩
      · rw [List.map_cons, List.foldl_cons, run, processed]
        simp
      · rw [found, processed, Keyed.get?_put, List.map_cons]
        by_cases hit : work.className = name
        · subst hit
          simp [fresh, there work List.mem_cons_self]
        · simp [hit, Ne.symm hit]

theorem keys_mergeSort_eq (works : List MixinWork) :
    (works.map (·.className)).mergeSort (fun left right => left ≤ right) =
      (byName works).map (·.className) := by
  rw [byName, List.map_mergeSort]
  intro left _ right _
  rfl

/-! Finishing. -/

theorem foldl_finishNode (nodes : List ClassNode) (state : HopState)
    (distinct : (nodes.map (·.name)).Nodup)
    (there : ∀ node ∈ nodes, state.contexts.get? node.name =
      (contextOf? hop.registry node).map hop.prepared) :
    ∃ contexts : Keyed String MixinWork,
      nodes.foldl hop.finishNode state =
        { state with
          contexts := contexts
          refmaps := (hop.mixins nodes).foldl hop.addReferences state.refmaps
          notices := state.notices ++
            (hop.mixins nodes).flatMap fun work => noticesOf (hop.late work) } := by
  induction nodes generalizing state with
  | nil => exact ⟨state.contexts, by simp [mixins]⟩
  | cons node rest ih =>
      obtain ⟨fresh, others⟩ := List.nodup_cons.mp distinct
      have own := there node List.mem_cons_self
      cases mixin : contextOf? hop.registry node with
      | none =>
          rw [mixin] at own
          rw [List.foldl_cons, finishNode_of_none hop own, mixins_cons_of_none rest mixin]
          exact ih state others fun later member =>
            there later (List.mem_cons_of_mem _ member)
      | some work =>
          rw [mixin] at own
          have finished := finishNode_of_some hop own (className_of_contextOf? mixin)
          obtain ⟨contexts, run⟩ := ih (hop.finishNode state node) others
            (by
              intro later member
              have apart : node.name ≠ later.name := fun same =>
                fresh (List.mem_map.mpr ⟨later, member, same.symm⟩)
              rw [finished, Keyed.get?_erase, if_neg apart]
              exact there later (List.mem_cons_of_mem _ member))
          refine ⟨contexts, ?_⟩
          rw [List.foldl_cons, run, finished, mixins_cons_of_some rest mixin]
          simp

/-! The whole hop. -/

theorem get?_mixins {nodes : List ClassNode} (distinct : (nodes.map (·.name)).Nodup)
    {node : ClassNode} (member : node ∈ nodes) :
    Keyed.get? node.name ((hop.mixins nodes).map fun work => (work.className, work)) =
      contextOf? hop.registry node := by
  induction nodes with
  | nil => cases member
  | cons first rest ih =>
      obtain ⟨fresh, others⟩ := List.nodup_cons.mp distinct
      have absent : first.name ∉ (hop.mixins rest).map (·.className) := fun old =>
        fresh ((map_className_sublist hop rest).subset old)
      rcases List.mem_cons.mp member with rfl | later
      · cases mixin : contextOf? hop.registry node with
        | none =>
            rw [mixins_cons_of_none rest mixin, Keyed.get?_eq_none_iff]
            simpa [Keyed.keys] using absent
        | some work =>
            rw [mixins_cons_of_some rest mixin]
            simp [Keyed.get?, className_of_contextOf? mixin]
      · have apart : first.name ≠ node.name := fun same =>
          fresh (List.mem_map.mpr ⟨node, later, same.symm⟩)
        cases mixin : contextOf? hop.registry first with
        | none =>
            rw [mixins_cons_of_none rest mixin]
            exact ih others later
        | some work =>
            rw [mixins_cons_of_some rest mixin, List.map_cons, Keyed.get?,
              if_neg (className_of_contextOf? mixin ▸ apart)]
            exact ih others later

/-- What comes out of a hop, put together from what its mixin classes find. -/
theorem runIn_spec {collected finished : List ClassNode} (same : finished.Perm collected)
    (distinct : (collected.map (·.name)).Nodup) :
    ∃ contexts : Keyed String MixinWork,
      hop.runIn collected finished =
        { contexts := contexts
          renames := (byName (hop.mixins collected)).foldl hop.addRenames []
          refmaps := (hop.mixins finished).foldl hop.addReferences .empty
          notices := (hop.mixins collected).flatMap hop.listing ++
            ((byName (hop.mixins collected)).flatMap fun work => noticesOf (hop.early work)) ++
            (hop.mixins finished).flatMap fun work => noticesOf (hop.late work) } := by
  have analyzed := foldl_collectClass hop collected .empty
    (by simpa [HopState.empty, Keyed.keys] using distinct)
  have names : ((byName (hop.mixins collected)).map (·.className)).Nodup := by
    rw [((byName_perm _).map _).nodup_iff]
    exact distinct.sublist (map_className_sublist hop collected)
  -- Contexts are prepared by name, which is another order than that of the collection.
  obtain ⟨prepared, early, found⟩ := foldl_processNamed hop _
    (collected.foldl hop.collectClass .empty) names
    (by
      intro work member
      obtain ⟨node, known, mixin⟩ := mem_mixins.mp ((byName_perm _).mem_iff.mp member)
      rw [analyzed, className_of_contextOf? mixin, ← mixin]
      exact get?_mixins hop distinct known)
  have order : (Keyed.keys (collected.foldl hop.collectClass .empty).contexts).mergeSort
      (fun left right => left ≤ right) = (byName (hop.mixins collected)).map (·.className) := by
    rw [analyzed, ← keys_mergeSort_eq]
    simp [HopState.empty, Keyed.keys, Function.comp_def]
  rw [← order] at early
  obtain ⟨contexts, run⟩ := foldl_finishNode hop finished
    (hop.processAll (collected.foldl hop.collectClass .empty))
    ((same.map _).nodup_iff.mpr distinct)
    (by
      intro node member
      have known := same.mem_iff.mp member
      have own := get?_mixins hop distinct known
      rw [processAll, early, found, analyzed]
      simp only [HopState.empty, List.nil_append, own]
      cases mixin : contextOf? hop.registry node with
      | none => simp
      | some work =>
          have listed : node.name ∈ (byName (hop.mixins collected)).map (·.className) :=
            List.mem_map.mpr ⟨work,
              (byName_perm _).mem_iff.mpr (mem_mixins.mpr ⟨node, known, mixin⟩),
              className_of_contextOf? mixin⟩
          simp [listed])
  refine ⟨contexts, ?_⟩
  rw [runIn, run, processAll, early, analyzed]
  rfl

/-! The references and the new names of one class in what comes out. -/

theorem class?_foldl_of_absent {works : List MixinWork} {className : String}
    (absent : className ∉ works.map (·.className)) (refmaps : Refmaps) (file : String) :
    (works.foldl hop.addReferences refmaps).class? file className =
      refmaps.class? file className := by
  induction works generalizing refmaps with
  | nil => rfl
  | cons work rest ih =>
      rw [List.map_cons, List.mem_cons, not_or] at absent
      rw [List.foldl_cons, ih absent.2]
      exact Refmaps.class?_add_of_ne refmaps _ (Ne.symm absent.1) _ file

theorem class?_foldl {works : List MixinWork} (distinct : (works.map (·.className)).Nodup)
    {work : MixinWork} (member : work ∈ works) {refmaps : Refmaps}
    (new : ∀ file, refmaps.class? file work.className = none) (file : String) :
    (works.foldl hop.addReferences refmaps).class? file work.className =
      if hop.inputs.fileFor work.className = file ∧ (hop.references work).isEmpty = false
      then some (hop.references work) else none := by
  induction works generalizing refmaps with
  | nil => cases member
  | cons first rest ih =>
      obtain ⟨fresh, others⟩ := List.nodup_cons.mp distinct
      rw [List.foldl_cons]
      rcases List.mem_cons.mp member with rfl | later
      · rw [class?_foldl_of_absent hop fresh]
        exact Refmaps.class?_add_of_new new _ _ file
      · refine ih others later fun place => ?_
        have apart : first.className ≠ work.className := fun same =>
          fresh (List.mem_map.mpr ⟨work, later, same.symm⟩)
        rw [addReferences, Refmaps.class?_add_of_ne refmaps _ apart]
        exact new place

variable {nodes : List ClassNode}

theorem class?_run (distinct : (nodes.map (·.name)).Nodup) {node : ClassNode}
    (member : node ∈ nodes) {work : MixinWork}
    (mixin : contextOf? hop.registry node = some work) (file : String) :
    (hop.run nodes).refmaps.class? file node.name =
      if hop.inputs.fileFor node.name = file ∧ (hop.references work).isEmpty = false
      then some (hop.references work) else none := by
  obtain ⟨contexts, run⟩ := runIn_spec hop (List.Perm.refl nodes) distinct
  rw [run_eq_runIn, run, ← className_of_contextOf? mixin]
  exact class?_foldl hop (distinct.sublist (map_className_sublist hop nodes))
    (mem_mixins.mpr ⟨node, member, mixin⟩) (fun _ => Refmaps.class?_empty ..) file

end Hop

end ArchiveRemap.Mixin
