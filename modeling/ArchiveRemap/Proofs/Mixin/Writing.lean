import ArchiveRemap.Proofs.Mixin.Run

/-!
What a hop writes for its mixins. All references of a class are in the one file that the
inputs name for it, and a class is only there with references. Texts that are put into an
archive leave the order of what was there alone.
-/

namespace ArchiveRemap

/-! Texts put into an archive. -/

/-- Put texts one after the other. -/
def Archive.putTexts {α : Type} (write : α → String) (texts : List (String × α))
    (archive : Archive) : Archive :=
  texts.foldl (fun done (path, content) => done.putText path (write content)) archive

namespace Archive

variable {α : Type} (write : α → String)

theorem text?_putText (archive : Archive) (path content other : String) :
    (archive.putText path content).text? other =
      if path = other then some content else archive.text? other := by
  simp only [text?, putText, Keyed.get?_put]
  split <;> rfl

theorem text?_putTexts_of_absent {texts : List (String × α)} {path : String}
    (absent : path ∉ Keyed.keys texts) (archive : Archive) :
    (archive.putTexts write texts).text? path = archive.text? path := by
  induction texts generalizing archive with
  | nil => rfl
  | cons first rest ih =>
      obtain ⟨other, absent⟩ := not_or.mp (mt List.mem_cons.mpr absent)
      rw [putTexts, List.foldl_cons, ← putTexts, ih absent, text?_putText,
        if_neg (Ne.symm other)]

theorem text?_putTexts_of_mem {texts : List (String × α)} {path : String}
    (member : path ∈ Keyed.keys texts) (archive : Archive) :
    ∃ content, (path, content) ∈ texts ∧
      (archive.putTexts write texts).text? path = some (write content) := by
  induction texts generalizing archive with
  | nil => cases member
  | cons first rest ih =>
      by_cases later : path ∈ Keyed.keys rest
      · obtain ⟨content, inside, found⟩ := ih later _
        exact ⟨content, List.mem_cons_of_mem _ inside, found⟩
      · obtain ⟨place, content⟩ := first
        have here : path = place := (List.mem_cons.mp member).resolve_right later
        subst here
        refine ⟨content, List.mem_cons_self, ?_⟩
        rw [putTexts, List.foldl_cons, ← putTexts, text?_putTexts_of_absent write later,
          text?_putText, if_pos rfl]

theorem keys_putTexts (texts : List (String × α)) (archive : Archive) :
    ∃ more, (archive.putTexts write texts).entries.keys = archive.entries.keys ++ more := by
  induction texts generalizing archive with
  | nil => exact ⟨[], (List.append_nil _).symm⟩
  | cons first rest ih =>
      obtain ⟨more, keys⟩ := ih (archive.putText first.1 (write first.2))
      have put : ∃ last, (archive.putText first.1 (write first.2)).entries.keys =
          archive.entries.keys ++ last := by
        rw [putText, Keyed.keys_put]
        split
        · exact ⟨[], (List.append_nil _).symm⟩
        · exact ⟨_, rfl⟩
      obtain ⟨last, put⟩ := put
      exact ⟨last ++ more, by rw [putTexts, List.foldl_cons, ← putTexts, keys, put,
        List.append_assoc]⟩

theorem nodup_putTexts (texts : List (String × α)) {archive : Archive}
    (distinct : archive.entries.keys.Nodup) :
    (archive.putTexts write texts).entries.keys.Nodup := by
  induction texts generalizing archive with
  | nil => exact distinct
  | cons first rest ih => exact ih (Keyed.keys_put_nodup _ _ _ distinct)

end Archive

namespace Mixin

/-! Where the references of a class are. -/

/-- Every class that some maps hold has references, and has them in the file for the class. -/
def Refmaps.InPlace (inputs : Inputs) (refmaps : Refmaps) : Prop :=
  ∀ file className entries, refmaps.class? file className = some entries →
    inputs.fileFor className = file ∧ entries.isEmpty = false

theorem Refmaps.inPlace_add {inputs : Inputs} {refmaps : Refmaps}
    (inPlace : refmaps.InPlace inputs) (className : String) (entries : ClassEntries) :
    (refmaps.add (inputs.fileFor className) className entries).InPlace inputs := by
  intro file other found held
  by_cases same : className = other
  · subst same
    rw [class?_add_self] at held
    split at held
    · rename_i added
      cases held
      refine ⟨added.1, ?_⟩
      have filled : entries.entries.isEmpty = false := added.2
      rw [Dictionary.isEmpty_insertAll, filled, Bool.false_and]
    · exact inPlace file className found held
  · rw [class?_add_of_ne _ _ same] at held
    exact inPlace file other found held

namespace Hop

variable (hop : Hop)

theorem refmaps_collectClass (state : HopState) (node : ClassNode) :
    (hop.collectClass state node).refmaps = state.refmaps := by
  unfold collectClass
  split <;> rfl

theorem refmaps_processNamed (state : HopState) (className : String) :
    (hop.processNamed state className).refmaps = state.refmaps := by
  unfold processNamed
  split <;> rfl

/-- Steps that keep the maps, taken one after the other. -/
theorem refmaps_foldl {α : Type} {step : HopState → α → HopState}
    (keeps : ∀ state item, (step state item).refmaps = state.refmaps) (items : List α)
    (state : HopState) : (items.foldl step state).refmaps = state.refmaps := by
  induction items generalizing state with
  | nil => rfl
  | cons item rest ih => rw [List.foldl_cons, ih, keeps]

theorem inPlace_finishNode {state : HopState} (inPlace : state.refmaps.InPlace hop.inputs)
    (node : ClassNode) : (hop.finishNode state node).refmaps.InPlace hop.inputs := by
  unfold finishNode
  split
  · exact inPlace
  · exact Refmaps.inPlace_add inPlace node.name _

theorem inPlace_run (nodes : List ClassNode) : (hop.run nodes).refmaps.InPlace hop.inputs := by
  have start : (hop.processAll (nodes.foldl hop.collectClass .empty)).refmaps = .empty := by
    rw [processAll, refmaps_foldl (refmaps_processNamed hop),
      refmaps_foldl (refmaps_collectClass hop)]
    rfl
  have finished (rest : List ClassNode) (state : HopState)
      (inPlace : state.refmaps.InPlace hop.inputs) :
      (rest.foldl hop.finishNode state).refmaps.InPlace hop.inputs := by
    induction rest generalizing state with
    | nil => exact inPlace
    | cons node rest ih => exact ih _ (inPlace_finishNode hop inPlace node)
  refine finished nodes _ ?_
  rw [start]
  intro file className entries held
  rw [Refmaps.class?_empty] at held
  cases held

/-! What is written. -/

theorem get?_addStale (written : Refmaps) (stale : List (String × ReferenceMap))
    (file : String) :
    (addStale written stale).1.get? file =
      (written.get? file).or (if file ∈ Keyed.keys stale then some .empty else none) := by
  induction stale generalizing written with
  | nil => simp [addStale, Keyed.keys]
  | cons first rest ih =>
      obtain ⟨place, refmap⟩ := first
      have keys : file ∈ Keyed.keys ((place, refmap) :: rest) ↔
          file = place ∨ file ∈ Keyed.keys rest := List.mem_cons
      unfold addStale
      cases known : written.has place with
      | true =>
          obtain ⟨there, found⟩ := Option.isSome_iff_exists.mp known
          simp only [if_true, ih, keys]
          by_cases here : file = place
          · rw [here, found]
            rfl
          · simp [here]
      | false =>
          simp only [Bool.false_eq_true, if_false, ih, keys, Dictionary.get?_insert]
          by_cases here : file = place
          · subst here
            have absent : written.get? file = none := by
              rwa [Dictionary.has, Option.isSome_eq_false_iff, Option.isNone_iff_eq_none] at known
            simp [absent]
          · simp [here, Ne.symm here]

/-- Every map that is written was found or is empty. -/
theorem eq_or_empty_of_addStale {found : Refmaps} {stale : List (String × ReferenceMap)}
    {file : String} {refmap : ReferenceMap}
    (held : (addStale found.nonEmpty stale).1.get? file = some refmap) :
    found.get? file = some refmap ∨ refmap = .empty := by
  rw [get?_addStale, Option.or_eq_some_iff, Refmaps.nonEmpty, Dictionary.get?_filter,
    Option.filter_eq_some_iff] at held
  rcases held with ⟨inside, -⟩ | ⟨-, emptied⟩
  · exact .inl inside
  · split at emptied
    · exact .inr (Option.some.inj emptied).symm
    · cases emptied

end Hop

end Mixin

end ArchiveRemap
