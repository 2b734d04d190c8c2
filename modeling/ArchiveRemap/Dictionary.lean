/-!
Dictionaries: values under text keys, in increasing order of the keys. The order is part
of the type, so two dictionaries with the same values under the same keys are equal.
-/

namespace ArchiveRemap

universe u

structure Dictionary (α : Type u) where
  entries : List (String × α)
  sorted : entries.Pairwise (fun left right => left.1 < right.1)

namespace Dictionary

variable {α : Type u}

instance [DecidableEq α] : DecidableEq (Dictionary α) := fun left right =>
  if same : left.entries = right.entries then
    isTrue (by cases left; cases right; simp only at same; subst same; rfl)
  else isFalse fun equal => same (equal ▸ rfl)

def empty : Dictionary α := ⟨[], List.Pairwise.nil⟩

instance : Inhabited (Dictionary α) := ⟨empty⟩

def insertSorted (key : String) (value : α) : List (String × α) → List (String × α)
  | [] => [(key, value)]
  | (k, old) :: rest =>
      if key < k then (key, value) :: (k, old) :: rest
      else if key = k then (key, value) :: rest
      else (k, old) :: insertSorted key value rest

theorem mem_insertSorted {key : String} {value : α} {entries : List (String × α)}
    {pair : String × α} (member : pair ∈ insertSorted key value entries) :
    pair = (key, value) ∨ pair ∈ entries := by
  induction entries with
  | nil => exact Or.inl (List.mem_singleton.mp member)
  | cons head rest ih =>
      obtain ⟨k, old⟩ := head
      unfold insertSorted at member
      split at member
      · exact List.mem_cons.mp member
      · split at member
        · rcases List.mem_cons.mp member with same | later
          · exact Or.inl same
          · exact Or.inr (List.mem_cons_of_mem _ later)
        · rcases List.mem_cons.mp member with same | later
          · exact Or.inr (same ▸ List.mem_cons_self)
          · rcases ih later with hit | old
            · exact Or.inl hit
            · exact Or.inr (List.mem_cons_of_mem _ old)

theorem insertSorted_sorted (key : String) (value : α) {entries : List (String × α)}
    (sorted : entries.Pairwise (fun left right => left.1 < right.1)) :
    (insertSorted key value entries).Pairwise (fun left right => left.1 < right.1) := by
  induction entries with
  | nil => simp [insertSorted]
  | cons head rest ih =>
      obtain ⟨k, old⟩ := head
      have ⟨below, tailSorted⟩ := List.pairwise_cons.mp sorted
      unfold insertSorted
      split
      · rename_i less
        refine List.pairwise_cons.mpr ⟨?_, sorted⟩
        intro pair member
        rcases List.mem_cons.mp member with same | later
        · rw [same]; exact less
        · exact String.lt_trans less (below pair later)
      · rename_i notLess
        split
        · rename_i same
          subst same
          exact List.pairwise_cons.mpr ⟨below, tailSorted⟩
        · rename_i different
          refine List.pairwise_cons.mpr ⟨?_, ih tailSorted⟩
          intro pair member
          rcases mem_insertSorted member with hit | later
          · rw [hit]
            exact String.not_le.mp fun le =>
              different (String.le_antisymm le (String.not_lt.mp notLess))
          · exact below pair later

/-- Put a value under a key, in place of what was there. -/
def insert (key : String) (value : α) (dictionary : Dictionary α) : Dictionary α :=
  ⟨insertSorted key value dictionary.entries, insertSorted_sorted key value dictionary.sorted⟩

def get? (key : String) (dictionary : Dictionary α) : Option α :=
  dictionary.entries.lookup key

def has (key : String) (dictionary : Dictionary α) : Bool :=
  (dictionary.get? key).isSome

def isEmpty (dictionary : Dictionary α) : Bool := dictionary.entries.isEmpty

def size (dictionary : Dictionary α) : Nat := dictionary.entries.length

def keys (dictionary : Dictionary α) : List String := dictionary.entries.map Prod.fst

/-- Insert pairs one after the other. -/
def insertAll (pairs : List (String × α)) (dictionary : Dictionary α) : Dictionary α :=
  pairs.foldl (fun done (key, value) => done.insert key value) dictionary

def ofList (pairs : List (String × α)) : Dictionary α := insertAll pairs empty

def filter (keep : String → α → Bool) (dictionary : Dictionary α) : Dictionary α :=
  ⟨dictionary.entries.filter fun (key, value) => keep key value, dictionary.sorted.filter _⟩

/-! What each operation does to the value under a key. -/

theorem get?_empty (key : String) : (empty : Dictionary α).get? key = none := rfl

theorem lookup_insertSorted (key other : String) (value : α) (entries : List (String × α)) :
    (insertSorted key value entries).lookup other =
      if key = other then some value else entries.lookup other := by
  induction entries with
  | nil =>
      by_cases hit : key = other
      · simp [insertSorted, hit]
      · simp [insertSorted, List.lookup_cons, hit, beq_false_of_ne (Ne.symm hit)]
  | cons head rest ih =>
      obtain ⟨k, old⟩ := head
      unfold insertSorted
      split
      · by_cases hit : key = other
        · simp [hit]
        · simp [List.lookup_cons, hit, beq_false_of_ne (Ne.symm hit)]
      · split
        · rename_i same
          subst same
          by_cases hit : key = other
          · simp [hit]
          · simp [List.lookup_cons, hit, beq_false_of_ne (Ne.symm hit)]
        · rename_i different
          by_cases here : other = k
          · subst here
            simp [different]
          · simp [List.lookup_cons, beq_false_of_ne here, ih]

theorem get?_insert (key other : String) (value : α) (dictionary : Dictionary α) :
    (dictionary.insert key value).get? other =
      if key = other then some value else dictionary.get? other :=
  lookup_insertSorted key other value dictionary.entries

theorem nodup_keys (dictionary : Dictionary α) : dictionary.keys.Nodup := by
  rw [List.Nodup, keys, List.pairwise_map]
  exact dictionary.sorted.imp fun less => String.ne_of_lt less

theorem mem_entries_iff {dictionary : Dictionary α} {key : String} {value : α} :
    (key, value) ∈ dictionary.entries ↔ dictionary.get? key = some value := by
  obtain ⟨entries, sorted⟩ := dictionary
  simp only [get?]
  induction entries with
  | nil => simp
  | cons head rest ih =>
      obtain ⟨k, old⟩ := head
      obtain ⟨below, tailSorted⟩ := List.pairwise_cons.mp sorted
      by_cases hit : key = k
      · subst hit
        have absent : (key, value) ∉ rest := fun later =>
          String.lt_irrefl key (below _ later)
        simp [absent, eq_comm]
      · simp [List.lookup_cons, beq_false_of_ne hit, hit, ih tailSorted]

/-- A dictionary that is not empty has a key. -/
theorem isEmpty_eq_false_iff {dictionary : Dictionary α} :
    dictionary.isEmpty = false ↔ ∃ key, (dictionary.get? key).isSome := by
  rw [isEmpty, List.isEmpty_eq_false_iff]
  constructor
  · intro filled
    obtain ⟨⟨key, value⟩, inside⟩ := List.exists_mem_of_ne_nil _ filled
    exact ⟨key, Option.isSome_of_eq_some (mem_entries_iff.mp inside)⟩
  · rintro ⟨key, found⟩
    obtain ⟨value, known⟩ := Option.isSome_iff_exists.mp found
    exact List.ne_nil_of_mem (mem_entries_iff.mpr known)

theorem get?_eq_none_iff {dictionary : Dictionary α} {key : String} :
    dictionary.get? key = none ↔ key ∉ dictionary.keys := by
  rw [Option.eq_none_iff_forall_ne_some, keys]
  simp [← mem_entries_iff]

/-- Equal values under all keys make equal dictionaries. -/
theorem ext_get? {left right : Dictionary α} (same : ∀ key, left.get? key = right.get? key) :
    left = right := by
  have nodup (dictionary : Dictionary α) : dictionary.entries.Nodup := by
    refine dictionary.sorted.imp ?_
    rintro pair _ less rfl
    exact String.lt_irrefl _ less
  have permuted : left.entries.Perm right.entries := by
    rw [List.perm_ext_iff_of_nodup (nodup left) (nodup right)]
    rintro ⟨key, value⟩
    rw [mem_entries_iff, mem_entries_iff, same]
  have equal : left.entries = right.entries :=
    permuted.eq_of_pairwise
      (fun _ _ _ _ less more => absurd (String.lt_trans less more) (String.lt_irrefl _))
      left.sorted right.sorted
  cases left
  cases right
  cases equal
  rfl

theorem insert_comm {first second : String} (different : first ≠ second) (left right : α)
    (dictionary : Dictionary α) :
    (dictionary.insert first left).insert second right =
      (dictionary.insert second right).insert first left := by
  apply ext_get?
  intro key
  simp only [get?_insert]
  by_cases hit : first = key
  · have other : second ≠ key := fun same => different (hit.trans same.symm)
    simp [hit, other]
  · simp [hit]

theorem insert_insert (key : String) (first second : α) (dictionary : Dictionary α) :
    (dictionary.insert key first).insert key second = dictionary.insert key second := by
  apply ext_get?
  intro other
  simp only [get?_insert]
  split <;> rfl

theorem get?_insertAll {pairs : List (String × α)} (distinct : (pairs.map Prod.fst).Nodup)
    (dictionary : Dictionary α) (key : String) :
    (dictionary.insertAll pairs).get? key = (pairs.lookup key).or (dictionary.get? key) := by
  induction pairs generalizing dictionary with
  | nil => rfl
  | cons head rest ih =>
      obtain ⟨k, value⟩ := head
      obtain ⟨fresh, others⟩ := List.nodup_cons.mp distinct
      have step : dictionary.insertAll ((k, value) :: rest) =
          (dictionary.insert k value).insertAll rest := rfl
      rw [step, ih others, get?_insert]
      by_cases hit : k = key
      · subst hit
        have absent : rest.lookup k = none := by
          rw [List.lookup_eq_none_iff]
          intro pair member
          simpa using fun same => fresh (List.mem_map.mpr ⟨pair, member, same.symm⟩)
        simp [absent]
      · simp [List.lookup_cons, hit, beq_false_of_ne (Ne.symm hit)]

theorem get?_filter (keep : String → α → Bool) (key : String) (dictionary : Dictionary α) :
    (dictionary.filter keep).get? key = (dictionary.get? key).filter (keep key) := by
  ext value
  rw [← mem_entries_iff, filter, List.mem_filter, mem_entries_iff, Option.filter_eq_some_iff]

theorem isEmpty_insert (key : String) (value : α) (dictionary : Dictionary α) :
    (dictionary.insert key value).isEmpty = false := by
  have found : (dictionary.insert key value).get? key = some value := by
    rw [get?_insert, if_pos rfl]
  rw [isEmpty, List.isEmpty_eq_false_iff]
  exact List.ne_nil_of_mem (mem_entries_iff.mpr found)

theorem isEmpty_insertAll (pairs : List (String × α)) (dictionary : Dictionary α) :
    (dictionary.insertAll pairs).isEmpty = (pairs.isEmpty && dictionary.isEmpty) := by
  induction pairs generalizing dictionary with
  | nil => rfl
  | cons head rest ih =>
      have step : dictionary.insertAll (head :: rest) =
          (dictionary.insert head.1 head.2).insertAll rest := rfl
      rw [step, ih, isEmpty_insert, Bool.and_false]
      rfl

theorem mem_of_mem_insertAll {pairs : List (String × α)} {dictionary : Dictionary α}
    {pair : String × α} (member : pair ∈ (dictionary.insertAll pairs).entries) :
    pair ∈ pairs ∨ pair ∈ dictionary.entries := by
  induction pairs generalizing dictionary with
  | nil => exact Or.inr member
  | cons head rest ih =>
      rcases ih member with later | inserted
      · exact Or.inl (List.mem_cons_of_mem _ later)
      · rcases mem_insertSorted inserted with same | old
        · exact Or.inl (same ▸ List.mem_cons_self)
        · exact Or.inr old

theorem mem_of_mem_ofList {pairs : List (String × α)} {pair : String × α}
    (member : pair ∈ (ofList pairs).entries) : pair ∈ pairs :=
  (mem_of_mem_insertAll member).resolve_right nofun

/-- Pairs taken from a dictionary make the same dictionary. -/
theorem ofList_entries (dictionary : Dictionary α) : ofList dictionary.entries = dictionary := by
  apply ext_get?
  intro key
  rw [ofList, get?_insertAll dictionary.nodup_keys, get?_empty, Option.or_none]
  rfl

end Dictionary

end ArchiveRemap
