import ArchiveRemap.Symbol.Descriptor
import Mathlib.Data.List.Basic

/-!
Renaming in descriptors. New names stand where the old ones stood, so as long as no new name
holds a `;`, a renamed descriptor falls into the renamed pieces again. Renaming twice is then
renaming once, for every text.
-/

namespace ArchiveRemap.Descriptor

variable {mapped next : String → Option String} {list : List Piece}

/-- The new name of a class, or its old one. -/
def renamed (mapped : String → Option String) (name : String) : String :=
  (mapped name).getD name

/-- Pieces as they come out of a text. A reference ends at the first `;` after its `L`, and an
`L` that is a mark has no `;` after it. -/
inductive Scanned : List Piece → Prop where
  | nil : Scanned []
  | mark {c : Char} {rest : List Piece} (different : c ≠ 'L') (tail : Scanned rest) :
      Scanned (.mark c :: rest)
  | stray {rest : List Piece} (unended : ';' ∉ write rest) (tail : Scanned rest) :
      Scanned (.mark 'L' :: rest)
  | reference {name : String} {rest : List Piece} (plain : ';' ∉ name.toList)
      (tail : Scanned rest) : Scanned (.reference name :: rest)

theorem write_cons (piece : Piece) (rest : List Piece) :
    write (piece :: rest) = piece.write ++ write rest := rfl

theorem scanned_pieces (text : List Char) : Scanned (pieces text) := by
  induction text using pieces.induct with
  | case1 =>
      rw [pieces]
      exact .nil
  | case2 rest name after found ih =>
      rw [pieces_reference found]
      refine .reference ?_ ih
      rw [String.toList_ofList]
      exact Text.not_mem_of_cut found
  | case3 rest absent ih =>
      rw [pieces_open absent]
      refine .stray ?_ ih
      rw [write_pieces]
      exact Text.cut_eq_none_iff.mp absent
  | case4 c rest different ih =>
      rw [pieces_mark rest different]
      exact .mark different ih

theorem pieces_write (scanned : Scanned list) : pieces (write list) = list := by
  induction scanned with
  | nil => rw [write, List.flatMap_nil, pieces]
  | mark different tail ih =>
      rw [write_cons, Piece.write, List.singleton_append, pieces_mark _ different, ih]
  | stray unended tail ih =>
      rw [write_cons, Piece.write, List.singleton_append,
        pieces_open (Text.cut_eq_none_iff.mpr unended), ih]
  | reference plain tail ih =>
      rw [write_cons, Piece.write, List.append_assoc, List.singleton_append,
        List.cons_append, pieces_reference (Text.cut_append plain), String.ofList_toList, ih]

/-- Where no reference ends, there is none to rename. -/
theorem map_rename_of_unended (unended : ';' ∉ write list) :
    list.map (Piece.rename mapped) = list := by
  induction list with
  | nil => rfl
  | cons piece rest ih =>
      rw [write_cons, List.mem_append, not_or] at unended
      rw [List.map_cons, ih unended.2]
      cases piece with
      | mark c => rfl
      | reference name => exact absurd (by simp [Piece.write]) unended.1

theorem Scanned.map_rename (plain : ∀ name new, mapped name = some new → ';' ∉ new.toList)
    (scanned : Scanned list) : Scanned (list.map (Piece.rename mapped)) := by
  induction scanned with
  | nil => exact .nil
  | mark different tail ih => exact .mark different ih
  | stray unended tail ih =>
      refine .stray ?_ ih
      rwa [map_rename_of_unended unended]
  | @reference name rest old tail ih =>
      refine .reference ?_ ih
      cases found : mapped name with
      | none => exact old
      | some new => exact plain name new found

/-! What renaming does to a descriptor. -/

theorem pieces_rename (plain : ∀ name new, mapped name = some new → ';' ∉ new.toList)
    (desc : String) :
    pieces (rename mapped desc).toList = (pieces desc.toList).map (Piece.rename mapped) := by
  rw [rename, String.toList_ofList]
  exact pieces_write ((scanned_pieces _).map_rename plain)

theorem references_rename (plain : ∀ name new, mapped name = some new → ';' ∉ new.toList)
    (desc : String) :
    references (rename mapped desc) = (references desc).map (renamed mapped) := by
  have name (piece : Piece) : (piece.rename mapped).name? = piece.name?.map (renamed mapped) := by
    cases piece <;> rfl
  rw [references, references, pieces_rename plain, List.filterMap_map, List.map_filterMap]
  exact List.filterMap_congr fun piece _ => name piece

theorem mem_references {name desc : String} :
    name ∈ references desc ↔ .reference name ∈ pieces desc.toList := by
  rw [references, List.mem_filterMap]
  constructor
  · rintro ⟨piece, member, found⟩
    cases piece with
    | mark c => cases found
    | reference other =>
        cases found
        exact member
  · intro member
    exact ⟨_, member, rfl⟩

theorem rename_congr {desc : String}
    (same : ∀ name ∈ references desc, renamed mapped name = renamed next name) :
    rename mapped desc = rename next desc := by
  rw [rename, rename]
  congr 2
  refine List.map_congr_left fun piece member => ?_
  cases piece with
  | mark c => rfl
  | reference name => exact congrArg Piece.reference (same name (mem_references.mpr member))

theorem rename_rename (plain : ∀ name new, mapped name = some new → ';' ∉ new.toList)
    (desc : String) : rename next (rename mapped desc) =
      rename (fun name => some (renamed next (renamed mapped name))) desc := by
  rw [rename, pieces_rename plain, List.map_map, rename]
  congr 2
  refine List.map_congr_left fun piece _ => ?_
  cases piece <;> rfl

theorem rename_eq_self {desc : String}
    (same : ∀ name ∈ references desc, renamed mapped name = name) :
    rename mapped desc = desc := by
  have keeps : rename mapped desc = rename (fun _ => none) desc := rename_congr same
  have none : (pieces desc.toList).map (Piece.rename fun _ => none) = pieces desc.toList := by
    refine (List.map_congr_left fun piece _ => ?_).trans (List.map_id' _)
    cases piece <;> rfl
  rw [keeps, rename, none, write_pieces, String.ofList_toList]

/-! Object descriptors. -/

theorem head?_rename (mapped : String → Option String) (desc : String) :
    (rename mapped desc).toList.head? = desc.toList.head? := by
  have old := write_pieces desc.toList
  rw [rename, String.toList_ofList]
  generalize pieces desc.toList = list at old ⊢
  rw [← old]
  cases list with
  | nil => rfl
  | cons piece rest => cases piece <;> rfl

theorem getLast?_rename (mapped : String → Option String) (desc : String) :
    (rename mapped desc).toList.getLast? = desc.toList.getLast? := by
  have old := write_pieces desc.toList
  rw [rename, String.toList_ofList]
  generalize pieces desc.toList = list at old ⊢
  rw [← old]
  rcases List.eq_nil_or_concat list with rfl | ⟨front, piece, rfl⟩
  · rfl
  · -- A reference ends in its `;` whatever its name.
    have ends (name : String) : (Piece.reference name).write.getLast? = some ';' := by
      rw [Piece.write, List.getLast?_concat]
    rw [List.concat_eq_append, List.map_append, write, write, List.flatMap_append,
      List.flatMap_append, List.map_singleton, List.flatMap_singleton, List.flatMap_singleton,
      List.getLast?_append, List.getLast?_append]
    cases piece with
    | mark c => rfl
    | reference name => rw [Piece.rename, ends, ends, Option.some_or, Option.some_or]

theorem objectType?_eq_some_iff {desc owner : String} :
    objectType? desc = some owner ↔ desc.toList = 'L' :: (owner.toList ++ [';']) := by
  simp only [objectType?, Option.bind_eq_bind, Option.bind_eq_some_iff,
    Text.dropHead?_eq_some_iff, Text.dropTail?_eq_some_iff, Option.some_inj]
  constructor
  · rintro ⟨body, starts, front, ends, rfl⟩
    rw [starts, ends, String.toList_ofList]
    rfl
  · intro text
    exact ⟨owner.toList ++ [';'], text, owner.toList, rfl, String.ofList_toList⟩

theorem isSome_objectType?_iff {desc : String} : (objectType? desc).isSome ↔
    desc.toList.head? = some 'L' ∧ desc.toList.getLast? = some ';' := by
  rw [Option.isSome_iff_exists]
  constructor
  · rintro ⟨owner, object⟩
    rw [objectType?_eq_some_iff.mp object, ← List.cons_append, List.getLast?_concat]
    exact ⟨rfl, rfl⟩
  · rintro ⟨starts, ends⟩
    obtain ⟨front, text⟩ := List.getLast?_eq_some_iff.mp ends
    rw [text] at starts
    cases front with
    | nil => cases starts
    | cons c body =>
        cases starts
        refine ⟨String.ofList body, objectType?_eq_some_iff.mpr ?_⟩
        rw [text, String.toList_ofList, List.cons_append]

/-- What is no object descriptor does not become one. -/
theorem objectType?_rename_of_none {desc : String} (none : objectType? desc = none) :
    objectType? (rename mapped desc) = .none := by
  rw [← Option.not_isSome_iff_eq_none, isSome_objectType?_iff] at none ⊢
  rwa [head?_rename, getLast?_rename]

/-- The descriptor of a class turns into the descriptor of the renamed class. -/
theorem objectType?_rename {desc owner : String} (plain : ';' ∉ owner.toList)
    (object : objectType? desc = some owner) :
    references desc = [owner] ∧
      objectType? (rename mapped desc) = some (renamed mapped owner) := by
  have split : pieces desc.toList = [.reference owner] := by
    have cut : Text.cut ';' (owner.toList ++ [';']) = some (owner.toList, []) :=
      Text.cut_append plain
    rw [objectType?_eq_some_iff.mp object, pieces_reference cut, String.ofList_toList, pieces]
  constructor
  · rw [references, split]
    rfl
  · rw [objectType?_eq_some_iff, rename, split, String.toList_ofList]
    simp [write, Piece.write, Piece.rename, renamed]

end ArchiveRemap.Descriptor
