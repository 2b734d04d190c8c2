import ArchiveRemap.Proofs.Tiny.Shape
import Mathlib.Data.List.Basic
import Mathlib.Tactic.Tauto

/-!
Where merged data goes. Values that come go under their keys, and keys that were not there come
behind the others. Namespaces that come go into the columns of their names, and names that were
not there are columns behind the others.
-/

namespace ArchiveRemap

/-! Values merged in under their keys. -/

namespace Keyed

universe u v w

variable {κ : Type u} {α : Type v} {β : Type w} [DecidableEq κ]

/-- Change the values under the keys of other entries, one after the other. -/
def adjustAll (start : α) (change : β → α → α) (entries : Keyed κ α) (arriving : Keyed κ β) :
    Keyed κ α :=
  arriving.foldl (fun done (key, value) => done.adjust key start (change value)) entries

variable {start : α} {change : β → α → α} {entries : Keyed κ α} {arriving : Keyed κ β}

theorem get?_adjustAll (distinct : (keys arriving).Nodup) (key : κ) :
    get? key (adjustAll start change entries arriving) =
      match get? key arriving with
      | some value => some (change value ((get? key entries).getD start))
      | none => get? key entries := by
  induction arriving generalizing entries with
  | nil => rfl
  | cons pair rest ih =>
      obtain ⟨own, value⟩ := pair
      obtain ⟨fresh, later⟩ := List.nodup_cons.mp distinct
      have step : adjustAll start change entries ((own, value) :: rest) =
          adjustAll start change (entries.adjust own start (change value)) rest := rfl
      rw [step, ih later, get?_adjust, get?]
      by_cases here : own = key
      · subst here
        rw [get?_eq_none_iff.mpr fresh]
        simp
      · simp only [if_neg here]

theorem keys_adjustAll (distinct : (keys arriving).Nodup) :
    keys (adjustAll start change entries arriving) =
      keys entries ++ (keys arriving).filter (· ∉ keys entries) := by
  induction arriving generalizing entries with
  | nil => simp [adjustAll, keys]
  | cons pair rest ih =>
      obtain ⟨own, value⟩ := pair
      obtain ⟨fresh, later⟩ := List.nodup_cons.mp distinct
      have step : adjustAll start change entries ((own, value) :: rest) =
          adjustAll start change (entries.adjust own start (change value)) rest := rfl
      have split : keys ((own, value) :: rest) = own :: keys rest := rfl
      rw [step, ih later, keys_adjust, keys_put, split]
      by_cases there : own ∈ keys entries
      · simp [there]
      · have apart : ∀ key ∈ keys rest, key ≠ own := fun key listed same => fresh (same ▸ listed)
        rw [if_neg there, List.filter_cons_of_pos (by simpa using there), List.append_assoc,
          List.singleton_append]
        congr 2
        refine List.filter_congr fun key listed => ?_
        simp [apart key listed]

/-- Changes that leave every value as it is. -/
theorem adjustAll_of_fixed (fixed : ∀ pair ∈ arriving, ∃ value,
    get? pair.1 entries = some value ∧ change pair.2 value = value) :
    adjustAll start change entries arriving = entries := by
  have still : ∀ (key : κ) (value : α) (alter : α → α) (entries : Keyed κ α),
      get? key entries = some value → alter value = value →
        adjust key start alter entries = entries := by
    intro key value alter entries found same
    induction entries with
    | nil => cases found
    | cons head rest ih =>
        obtain ⟨own, old⟩ := head
        by_cases here : own = key
        · simp only [get?, here, if_true, Option.some.injEq] at found
          simp [adjust, here, found, same]
        · simp only [get?, if_neg here] at found
          simp [adjust, here, ih found]
  induction arriving with
  | nil => rfl
  | cons pair rest ih =>
      obtain ⟨⟨value, found, same⟩, later⟩ := List.forall_mem_cons.mp fixed
      have step : adjustAll start change entries (pair :: rest) =
          adjustAll start change (entries.adjust pair.1 start (change pair.2)) rest := rfl
      rw [step, still pair.1 value _ entries found same, ih later]

end Keyed

namespace Tiny

/-! Columns. -/

/-- New namespaces come behind the known ones, each once and in the order in which they first
come. -/
theorem placeColumns_namespaces (namespaces incoming : List String) :
    (placeColumns namespaces incoming).1 =
      namespaces ++ (incoming.filter (· ∉ namespaces)).eraseDups := by
  induction incoming generalizing namespaces with
  | nil => simp [placeColumns]
  | cons name rest ih =>
      unfold placeColumns
      split
      · rename_i column found
        have there : name ∈ namespaces := by
          obtain ⟨inside, same, -⟩ := List.findIdx?_eq_some_iff_getElem.mp found
          exact of_decide_eq_true same ▸ List.getElem_mem inside
        rw [ih, List.filter_cons_of_neg (by simpa using there)]
      · rename_i missing
        have fresh : name ∉ namespaces := fun there => by
          have := List.findIdx?_eq_none_iff.mp missing name there
          simp at this
        rw [ih, List.filter_cons_of_pos (by simpa using fresh), List.eraseDups_cons,
          List.filter_filter, List.append_assoc, List.singleton_append]
        congr 3
        refine List.filter_congr fun other _ => ?_
        by_cases same : other = name <;> simp [same]

theorem mem_placeColumns {namespaces incoming : List String} {name : String} :
    name ∈ (placeColumns namespaces incoming).1 ↔ name ∈ namespaces ∨ name ∈ incoming := by
  rw [placeColumns_namespaces, List.mem_append, List.mem_eraseDups, List.mem_filter,
    decide_eq_true_eq]
  tauto

theorem findIdx?_eq_idxOf (namespaces : List String) (name : String) :
    namespaces.findIdx? (· = name) =
      if name ∈ namespaces then some (namespaces.idxOf name) else none := by
  split
  · rename_i there
    exact List.findIdx?_eq_some_of_exists ⟨name, there, decide_eq_true rfl⟩
  · rename_i missing
    refine List.findIdx?_eq_none_iff.mpr fun other listed => decide_eq_false ?_
    rintro rfl
    exact missing listed

/-- Every namespace goes to the first column of its name. -/
theorem placeColumns_columns (namespaces incoming : List String) :
    (placeColumns namespaces incoming).2 =
      incoming.map fun name => (placeColumns namespaces incoming).1.idxOf name := by
  induction incoming generalizing namespaces with
  | nil => rfl
  | cons name rest ih =>
      have first : ∀ {known : List String}, name ∈ known →
          (placeColumns known rest).1.idxOf name = known.idxOf name := by
        intro known there
        obtain ⟨more, same⟩ := keeps_placeColumns known rest
        rw [← same, List.idxOf_append_of_mem there]
      unfold placeColumns
      rw [findIdx?_eq_idxOf]
      by_cases there : name ∈ namespaces
      · simp only [if_pos there, List.map_cons, first there, ih]
      · simp only [if_neg there, List.map_cons, ih,
          first (List.mem_append_right namespaces (List.mem_singleton_self name))]
        simp [List.idxOf_append_of_notMem there]

/-- Namespaces that were placed before find their columns again. -/
theorem placeColumns_again (known incoming : List String) :
    placeColumns (placeColumns known incoming).1 incoming = placeColumns known incoming := by
  have same : (placeColumns (placeColumns known incoming).1 incoming).1 =
      (placeColumns known incoming).1 := by
    rw [placeColumns_namespaces (placeColumns known incoming).1, List.filter_eq_nil_iff.mpr,
      List.eraseDups_nil, List.append_nil]
    intro space listed
    simpa using mem_placeColumns.mpr (.inr listed)
  refine Prod.ext same ?_
  rw [placeColumns_columns, placeColumns_columns, same]

end Tiny

end ArchiveRemap
