/-!
Keyed lists: pairs of a key and a value in the order in which the keys first came.
Putting a value under a key that is there keeps the key's position, so the order of
entries is part of the data and never depends on how a key is stored.
-/

namespace ArchiveRemap

universe u v

abbrev Keyed (κ : Type u) (α : Type v) := List (κ × α)

namespace Keyed

variable {κ : Type u} {α : Type v} [DecidableEq κ]

def get? (key : κ) : Keyed κ α → Option α
  | [] => none
  | (k, value) :: rest => if k = key then some value else get? key rest

def has (key : κ) (entries : Keyed κ α) : Bool := (get? key entries).isSome

/-- Replace the value under `key`, or add the pair at the end. -/
def put (key : κ) (value : α) : Keyed κ α → Keyed κ α
  | [] => [(key, value)]
  | (k, old) :: rest => if k = key then (k, value) :: rest else (k, old) :: put key value rest

/-- Add the pair at the end unless the key is there already. -/
def putNew (key : κ) (value : α) (entries : Keyed κ α) : Keyed κ α :=
  if has key entries then entries else entries ++ [(key, value)]

/-- Change the value under `key`; a key that is missing is added with `start` first. -/
def adjust (key : κ) (start : α) (change : α → α) : Keyed κ α → Keyed κ α
  | [] => [(key, change start)]
  | (k, old) :: rest =>
      if k = key then (k, change old) :: rest else (k, old) :: adjust key start change rest

def erase (key : κ) (entries : Keyed κ α) : Keyed κ α :=
  entries.filter fun (k, _) => k ≠ key

def keys (entries : Keyed κ α) : List κ := entries.map Prod.fst

def values (entries : Keyed κ α) : List α := entries.map Prod.snd

/-- Put pairs one after the other. -/
def putAll (entries more : Keyed κ α) : Keyed κ α :=
  more.foldl (fun done (key, value) => put key value done) entries

def ofList (pairs : List (κ × α)) : Keyed κ α := putAll [] pairs

/-! What each operation does to the value under a key. -/

theorem get?_put (key other : κ) (value : α) (entries : Keyed κ α) :
    get? other (put key value entries) =
      if key = other then some value else get? other entries := by
  induction entries with
  | nil => simp [put, get?]
  | cons head rest ih =>
      obtain ⟨k, old⟩ := head
      by_cases same : k = key
      · subst same
        by_cases hit : k = other <;> simp [put, get?, hit]
      · by_cases hit : k = other
        · subst hit
          simp [put, get?, same, Ne.symm same]
        · simp [put, get?, same, hit, ih]

theorem get?_adjust (key other : κ) (start : α) (change : α → α) (entries : Keyed κ α) :
    get? other (adjust key start change entries) =
      if key = other then some (change ((get? key entries).getD start))
      else get? other entries := by
  induction entries with
  | nil => simp [adjust, get?]
  | cons head rest ih =>
      obtain ⟨k, old⟩ := head
      by_cases same : k = key
      · subst same
        by_cases hit : k = other <;> simp [adjust, get?, hit]
      · by_cases hit : k = other
        · subst hit
          simp [adjust, get?, same, Ne.symm same]
        · simp [adjust, get?, same, hit, ih]

theorem get?_erase (key other : κ) (entries : Keyed κ α) :
    get? other (erase key entries) = if key = other then none else get? other entries := by
  induction entries with
  | nil => simp [erase, get?]
  | cons head rest ih =>
      obtain ⟨k, old⟩ := head
      simp only [erase] at ih
      by_cases same : k = key
      · subst same
        by_cases hit : k = other <;> simpa [erase, get?, hit] using ih
      · by_cases hit : k = other
        · subst hit
          simp [erase, get?, same, Ne.symm same]
        · simpa [erase, get?, same, hit] using ih

theorem get?_append (key : κ) (entries more : Keyed κ α) :
    get? key (entries ++ more) = (get? key entries).or (get? key more) := by
  induction entries with
  | nil => rfl
  | cons head rest ih =>
      obtain ⟨k, old⟩ := head
      by_cases hit : k = key
      · simp [get?, hit]
      · simp [get?, hit, ih]

theorem get?_putNew (key other : κ) (value : α) (entries : Keyed κ α) :
    get? other (putNew key value entries) =
      (get? other entries).or (if key = other then some value else none) := by
  rw [putNew, has]
  split
  · rename_i known
    by_cases hit : key = other
    · subst hit
      obtain ⟨old, found⟩ := Option.isSome_iff_exists.mp known
      simp [found]
    · simp [hit]
  · rw [get?_append]
    rfl

theorem get?_eq_none_iff {key : κ} {entries : Keyed κ α} :
    get? key entries = none ↔ key ∉ keys entries := by
  induction entries with
  | nil => simp [get?, keys]
  | cons head rest ih =>
      obtain ⟨k, old⟩ := head
      simp only [keys] at ih
      by_cases same : k = key
      · simp [get?, keys, same]
      · simp [get?, keys, same, Ne.symm same, ih]

theorem put_put (key : κ) (first second : α) (entries : Keyed κ α) :
    put key second (put key first entries) = put key second entries := by
  induction entries with
  | nil => simp [put]
  | cons head rest ih =>
      obtain ⟨k, old⟩ := head
      by_cases same : k = key
      · simp [put, same]
      · simp [put, same, ih]

/-- Putting back what is there changes nothing. -/
theorem put_of_get? {key : κ} {value : α} {entries : Keyed κ α}
    (found : get? key entries = some value) : put key value entries = entries := by
  induction entries with
  | nil => cases found
  | cons head rest ih =>
      obtain ⟨k, old⟩ := head
      by_cases same : k = key
      · simp only [get?, same, if_true, Option.some.injEq] at found
        rw [put, if_pos same, found]
      · rw [get?, if_neg same] at found
        rw [put, if_neg same, ih found]

/-- Erasing a key that was put at the end undoes the putting. -/
theorem erase_put_of_fresh (key : κ) (value : α) (entries : Keyed κ α)
    (fresh : key ∉ keys entries) : erase key (put key value entries) = entries := by
  induction entries with
  | nil => simp [erase, put]
  | cons head rest ih =>
      obtain ⟨k, old⟩ := head
      simp only [keys, List.map_cons, List.mem_cons, not_or] at fresh
      have kept := ih fresh.2
      simp only [erase] at kept
      simp only [erase, put, if_neg (Ne.symm fresh.1)]
      rw [List.filter_cons_of_pos (by simpa using Ne.symm fresh.1), kept]

theorem keys_put (key : κ) (value : α) (entries : Keyed κ α) :
    keys (put key value entries) =
      if key ∈ keys entries then keys entries else keys entries ++ [key] := by
  induction entries with
  | nil => simp [put, keys]
  | cons head rest ih =>
      obtain ⟨k, old⟩ := head
      by_cases same : k = key
      · simp [put, keys, same]
      · simp only [keys] at ih
        by_cases member : key ∈ List.map Prod.fst rest <;>
          simp [put, keys, same, Ne.symm same, ih, member]

theorem keys_put_nodup (key : κ) (value : α) (entries : Keyed κ α)
    (distinct : (keys entries).Nodup) : (keys (put key value entries)).Nodup := by
  rw [keys_put]
  split
  · exact distinct
  · rename_i fresh
    rw [List.nodup_append]
    refine ⟨distinct, by simp, ?_⟩
    intro k member other same
    simp only [List.mem_singleton] at same
    subst same
    intro equal
    exact fresh (equal ▸ member)

theorem keys_putNew_nodup (key : κ) (value : α) (entries : Keyed κ α)
    (distinct : (keys entries).Nodup) : (keys (putNew key value entries)).Nodup := by
  rw [putNew, has]
  split
  · exact distinct
  · rename_i unknown
    rw [Bool.not_eq_true, Option.isSome_eq_false_iff, Option.isNone_iff_eq_none,
      get?_eq_none_iff] at unknown
    rw [keys, List.map_append, List.nodup_append]
    refine ⟨distinct, by simp, ?_⟩
    rintro k member other same rfl
    rw [List.mem_singleton.mp same] at member
    exact unknown member

theorem get?_map {β : Type v} (change : α → β) (key : κ) (entries : Keyed κ α) :
    get? key (entries.map fun (name, value) => (name, change value)) =
      (get? key entries).map change := by
  induction entries with
  | nil => rfl
  | cons head rest ih =>
      obtain ⟨k, old⟩ := head
      by_cases same : k = key
      · simp [get?, same]
      · simp [get?, same, ih]

/-! Entries by membership. Where the keys are distinct, an entry is what its key finds. -/

theorem mem_of_get? {key : κ} {value : α} {entries : Keyed κ α}
    (found : get? key entries = some value) : (key, value) ∈ entries := by
  induction entries with
  | nil => cases found
  | cons head rest ih =>
      obtain ⟨k, old⟩ := head
      by_cases same : k = key
      · subst same
        simp only [get?, if_true, Option.some.injEq] at found
        rw [found]
        exact List.mem_cons_self
      · simp only [get?, if_neg same] at found
        exact List.mem_cons_of_mem _ (ih found)

omit [DecidableEq κ] in
/-- A choice that keeps the keys keeps them in their order. -/
theorem keys_filterMap_sublist {β : Type v} {keyOf : β → κ} {choose : β → Option (κ × α)}
    (kept : ∀ item pair, choose item = some pair → pair.1 = keyOf item) (items : List β) :
    (keys (items.filterMap choose)).Sublist (items.map keyOf) := by
  induction items with
  | nil => exact .slnil
  | cons item rest ih =>
      cases chosen : choose item with
      | none =>
          rw [List.filterMap_cons_none chosen]
          exact ih.cons _
      | some pair =>
          rw [List.filterMap_cons_some chosen, keys, List.map_cons, List.map_cons,
            kept item pair chosen]
          exact ih.cons_cons _

theorem get?_of_mem {key : κ} {value : α} {entries : Keyed κ α}
    (distinct : (keys entries).Nodup) (member : (key, value) ∈ entries) :
    get? key entries = some value := by
  induction entries with
  | nil => cases member
  | cons head rest ih =>
      obtain ⟨k, old⟩ := head
      obtain ⟨fresh, others⟩ := List.nodup_cons.mp distinct
      rcases List.mem_cons.mp member with same | later
      · cases same
        simp [get?]
      · have different : k ≠ key := by
          rintro rfl
          exact fresh (List.mem_map.mpr ⟨_, later, rfl⟩)
        simp only [get?, if_neg different]
        exact ih others later

/-- Where the keys are distinct, their order is nothing to a look-up. -/
theorem get?_perm (key : κ) {left right : Keyed κ α} (same : left.Perm right)
    (distinct : (keys right).Nodup) : get? key left = get? key right := by
  have leftDistinct : (keys left).Nodup := (same.map Prod.fst).nodup_iff.mpr distinct
  cases found : get? key right with
  | none =>
      rw [get?_eq_none_iff] at found ⊢
      exact fun member => found ((same.map Prod.fst).mem_iff.mp member)
  | some value => exact get?_of_mem leftDistinct (same.mem_iff.mpr (mem_of_get? found))

theorem mem_put {key : κ} {value : α} {entries : Keyed κ α} {pair : κ × α}
    (member : pair ∈ put key value entries) : pair = (key, value) ∨ pair ∈ entries := by
  induction entries with
  | nil => exact .inl (List.mem_singleton.mp member)
  | cons head rest ih =>
      obtain ⟨k, old⟩ := head
      by_cases same : k = key
      · rw [put, if_pos same, same] at member
        exact (List.mem_cons.mp member).imp_right (List.mem_cons_of_mem _)
      · rw [put, if_neg same] at member
        rcases List.mem_cons.mp member with rfl | later
        · exact .inr List.mem_cons_self
        · exact (ih later).imp_right (List.mem_cons_of_mem _)

theorem mem_adjust {key : κ} {start : α} {change : α → α} {entries : Keyed κ α} {pair : κ × α}
    (member : pair ∈ adjust key start change entries) :
    (∃ old, (old = start ∨ (key, old) ∈ entries) ∧ pair = (key, change old)) ∨
      pair ∈ entries := by
  induction entries with
  | nil => exact .inl ⟨start, .inl rfl, List.mem_singleton.mp member⟩
  | cons head rest ih =>
      obtain ⟨k, old⟩ := head
      by_cases same : k = key
      · subst same
        rw [adjust, if_pos rfl] at member
        rcases List.mem_cons.mp member with rfl | later
        · exact .inl ⟨old, .inr List.mem_cons_self, rfl⟩
        · exact .inr (List.mem_cons_of_mem _ later)
      · rw [adjust, if_neg same] at member
        rcases List.mem_cons.mp member with rfl | later
        · exact .inr List.mem_cons_self
        · rcases ih later with ⟨before, origin, made⟩ | kept
          · exact .inl ⟨before, origin.imp_right (List.mem_cons_of_mem _), made⟩
          · exact .inr (List.mem_cons_of_mem _ kept)

theorem keys_adjust (key : κ) (start : α) (change : α → α) (entries : Keyed κ α) :
    keys (adjust key start change entries) = keys (put key start entries) := by
  induction entries with
  | nil => rfl
  | cons head rest ih =>
      obtain ⟨k, old⟩ := head
      simp only [keys] at ih
      by_cases same : k = key
      · simp [adjust, put, keys, same]
      · simp [adjust, put, keys, same, ih]

/-! A key that is not there goes behind all entries. -/

theorem adjust_append {key : κ} {start : α} {change : α → α} {entries : Keyed κ α}
    (fresh : key ∉ keys entries) (rest : Keyed κ α) :
    adjust key start change (entries ++ rest) = entries ++ adjust key start change rest := by
  induction entries with
  | nil => rfl
  | cons head tail ih =>
      obtain ⟨k, old⟩ := head
      rw [keys, List.map_cons, List.mem_cons, not_or] at fresh
      rw [List.cons_append, adjust, if_neg (Ne.symm fresh.1), ih fresh.2, List.cons_append]

theorem put_append {key : κ} {value : α} {entries : Keyed κ α} (fresh : key ∉ keys entries)
    (rest : Keyed κ α) : put key value (entries ++ rest) = entries ++ put key value rest := by
  induction entries with
  | nil => rfl
  | cons head tail ih =>
      obtain ⟨k, old⟩ := head
      rw [keys, List.map_cons, List.mem_cons, not_or] at fresh
      rw [List.cons_append, put, if_neg (Ne.symm fresh.1), ih fresh.2, List.cons_append]

theorem put_of_fresh {key : κ} {value : α} {entries : Keyed κ α}
    (fresh : key ∉ keys entries) : put key value entries = entries ++ [(key, value)] := by
  have behind : put key value (entries ++ []) = entries ++ put key value [] := put_append fresh []
  rwa [List.append_nil] at behind

/-- Entries with distinct keys are put in any order. -/
theorem put_perm (key : κ) (value : α) {left right : Keyed κ α} (same : left.Perm right)
    (distinct : (keys right).Nodup) : (put key value left).Perm (put key value right) := by
  induction same with
  | nil => exact .refl _
  | cons head rest ih =>
      obtain ⟨k, old⟩ := head
      by_cases hit : k = key
      · simpa [put, hit] using rest
      · simpa [put, hit] using ih (List.nodup_cons.mp distinct).2
  | swap first second rest =>
      obtain ⟨k, old⟩ := first
      obtain ⟨l, other⟩ := second
      have apart : k ≠ l := fun equal =>
        (List.nodup_cons.mp distinct).1 (equal ▸ List.mem_cons_self)
      by_cases hit : k = key
      · have miss : l ≠ key := fun equal => apart (hit.trans equal.symm)
        simpa [put, hit, miss] using List.Perm.swap ..
      · by_cases here : l = key
        · simpa [put, hit, here] using List.Perm.swap ..
        · simpa [put, hit, here] using List.Perm.swap ..
  | trans first second firstIh secondIh =>
      exact (firstIh ((second.map _).nodup_iff.mpr distinct)).trans (secondIh distinct)

/-- Dropping keys commutes with putting. -/
theorem filter_put (keep : κ → Bool) (key : κ) (value : α) (entries : Keyed κ α) :
    (put key value entries).filter (fun (k, _) => keep k) =
      if keep key then put key value (entries.filter fun (k, _) => keep k)
      else entries.filter fun (k, _) => keep k := by
  induction entries with
  | nil => cases kept : keep key <;> simp [put, kept]
  | cons head rest ih =>
      obtain ⟨k, old⟩ := head
      by_cases same : k = key
      · subst same
        cases kept : keep k <;> simp [put, kept]
      · cases kept : keep key <;> cases other : keep k <;> simp [put, same, kept, other] at ih ⊢ <;>
          exact ih

theorem filter_putAll (keep : κ → Bool) (entries more : Keyed κ α) :
    (putAll entries more).filter (fun (k, _) => keep k) =
      putAll (entries.filter fun (k, _) => keep k) (more.filter fun (k, _) => keep k) := by
  induction more generalizing entries with
  | nil => rfl
  | cons head rest ih =>
      obtain ⟨k, value⟩ := head
      have step : putAll entries ((k, value) :: rest) = putAll (put k value entries) rest := rfl
      rw [step, ih, filter_put]
      cases kept : keep k <;> simp [putAll, kept]

theorem filter_ofList (keep : κ → Bool) (pairs : List (κ × α)) :
    (ofList pairs).filter (fun (k, _) => keep k) = ofList (pairs.filter fun (k, _) => keep k) :=
  filter_putAll keep [] pairs

theorem putAll_of_nodup (entries more : Keyed κ α)
    (distinct : (keys (entries ++ more)).Nodup) : putAll entries more = entries ++ more := by
  induction more generalizing entries with
  | nil => rw [List.append_nil]; rfl
  | cons head rest ih =>
      obtain ⟨key, value⟩ := head
      have fresh : key ∉ keys entries := by
        rw [keys, List.map_append, List.map_cons] at distinct
        exact fun member =>
          (List.nodup_append.mp distinct).2.2 key member key List.mem_cons_self rfl
      have moved : entries ++ (key, value) :: rest = (entries ++ [(key, value)]) ++ rest := by
        rw [List.append_assoc, List.singleton_append]
      have step : putAll entries ((key, value) :: rest) =
          putAll (entries ++ [(key, value)]) rest := by
        rw [← put_of_fresh fresh]
        rfl
      rw [moved] at distinct ⊢
      rw [step, ih _ distinct]

theorem keys_putAll_nodup (entries more : Keyed κ α) (distinct : (keys entries).Nodup) :
    (keys (putAll entries more)).Nodup := by
  induction more generalizing entries with
  | nil => exact distinct
  | cons head rest ih => exact ih _ (keys_put_nodup head.1 head.2 entries distinct)

theorem keys_ofList_nodup (pairs : List (κ × α)) : (keys (ofList pairs)).Nodup :=
  keys_putAll_nodup [] pairs List.nodup_nil

/-- The last pair with a key decides. -/
theorem get?_putAll (key : κ) (entries more : Keyed κ α) :
    get? key (putAll entries more) = (get? key more.reverse).or (get? key entries) := by
  induction more generalizing entries with
  | nil => rfl
  | cons head rest ih =>
      obtain ⟨k, value⟩ := head
      have step : putAll entries ((k, value) :: rest) = putAll (put k value entries) rest := rfl
      rw [step, ih, get?_put, List.reverse_cons, get?_append, Option.or_assoc]
      congr 1
      by_cases hit : k = key <;> simp [get?, hit]

theorem get?_ofList (key : κ) (pairs : List (κ × α)) :
    get? key (ofList pairs) = get? key pairs.reverse := by
  have last : get? key (ofList pairs) = (get? key pairs.reverse).or none :=
    get?_putAll key [] pairs
  rw [last, Option.or_none]

theorem mem_keys_ofList {key : κ} {pairs : List (κ × α)} :
    key ∈ keys (ofList pairs) ↔ key ∈ keys pairs := by
  have missing : key ∉ keys (ofList pairs) ↔ key ∉ keys pairs.reverse := by
    rw [← get?_eq_none_iff, ← get?_eq_none_iff, get?_ofList]
  rw [Decidable.not_iff_not.mp missing, keys, List.map_reverse, List.mem_reverse, keys]

/-- A pair stays if no other pair has its key. -/
theorem get?_ofList_of_alone {pair : κ × α} {pairs : List (κ × α)} (member : pair ∈ pairs)
    (alone : ∀ other ∈ pairs, other.1 = pair.1 → other = pair) :
    get? pair.1 (ofList pairs) = some pair.2 := by
  have known : pair.1 ∈ keys (ofList pairs) :=
    mem_keys_ofList.mpr (List.mem_map_of_mem member)
  cases found : get? pair.1 (ofList pairs) with
  | none => exact absurd known (get?_eq_none_iff.mp found)
  | some value =>
      rw [get?_ofList] at found
      have origin := List.mem_reverse.mp (mem_of_get? found)
      exact congrArg (some ·.2) (alone _ origin rfl)

/-- Pairs with distinct keys are kept as they are. -/
theorem ofList_of_nodup {pairs : List (κ × α)} (distinct : (keys pairs).Nodup) :
    ofList pairs = pairs :=
  putAll_of_nodup [] pairs distinct

end Keyed

end ArchiveRemap
