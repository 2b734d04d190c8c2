import ArchiveRemap.Json.Taking
import ArchiveRemap.Keyed
import ArchiveRemap.Proofs.Json.Written

/-!
Levels of values, and what a taker finds in the tree of a value: the fields of a record under
their names, the items of a list one by one. A list whose items are taken only up to some depth
is taken if all its items are within it.
-/

namespace ArchiveRemap.Json

namespace Value

mutual

/-- Arrays and objects inside each other, along the deepest way down. -/
def levels : Value → Nat
  | .array items => itemLevels items + 1
  | .object members => memberLevels members + 1
  | _ => 0

def itemLevels : List Value → Nat
  | [] => 0
  | item :: rest => max item.levels (itemLevels rest)

def memberLevels : List (String × Value) → Nat
  | [] => 0
  | (_, value) :: rest => max value.levels (memberLevels rest)

end

theorem itemLevels_le_iff {items : List Value} {room : Nat} :
    itemLevels items ≤ room ↔ ∀ item ∈ items, item.levels ≤ room := by
  induction items with
  | nil => simp [itemLevels]
  | cons item rest ih => rw [itemLevels, Nat.max_le, ih, List.forall_mem_cons]

theorem memberLevels_le_iff {members : List (String × Value)} {room : Nat} :
    memberLevels members ≤ room ↔ ∀ member ∈ members, member.2.levels ≤ room := by
  induction members with
  | nil => simp [memberLevels]
  | cons member rest ih => rw [memberLevels, Nat.max_le, ih, List.forall_mem_cons]

theorem memberLevels_append_le_iff {members more : List (String × Value)} {room : Nat} :
    memberLevels (members ++ more) ≤ room ↔
      memberLevels members ≤ room ∧ memberLevels more ≤ room := by
  simp only [memberLevels_le_iff, List.forall_mem_append]

/-- A variant is one level above its body. -/
theorem levels_variant (key : String) (value : Value) :
    (object [(key, value)]).levels = value.levels + 1 := by
  rw [levels, memberLevels, memberLevels, Nat.max_zero]

/-! A value that fits somewhere fits where there is room for its levels. -/

/-- The numbers of the value are in their ranges. -/
def Legal (value : Value) : Prop := value.Fits value.levels

theorem legal_string (text : String) : (string text).Legal := .string text

theorem legal_integer {number : Int} (low : -(2 ^ 63) ≤ number) (high : number < 2 ^ 64) :
    (integer number).Legal :=
  .integer low high

theorem legal_array {items : List Value} (each : ∀ item ∈ items, item.Legal) :
    (array items).Legal := by
  apply Fits.array
  intro item member
  exact (each item member).mono (itemLevels_le_iff.mp (Nat.le_refl _) item member)

theorem legal_object {members : List (String × Value)}
    (each : ∀ member ∈ members, member.2.Legal) : (object members).Legal := by
  apply Fits.object
  intro member inside
  exact (each member inside).mono (memberLevels_le_iff.mp (Nat.le_refl _) member inside)

theorem legal_variant {key : String} {value : Value} (legal : value.Legal) :
    (object [(key, value)]).Legal :=
  legal_object (List.forall_mem_singleton.mpr legal)

theorem itemTrees_eq_map (items : List Value) : itemTrees items = items.map tree := by
  induction items with
  | nil => rfl
  | cons item rest ih => rw [itemTrees, ih, List.map_cons]

end Value

namespace Tree

/-- The members of a written object. -/
theorem members?_tree (members : List (String × Value)) :
    (Value.object members).tree.members? =
      some (members.map fun (key, value) => (key, value.tree)) := by
  rw [Value.tree, members?]
  induction members with
  | nil => rfl
  | cons member rest ih => simp [Value.memberTrees, List.mapM_cons, ih]

theorem string?_tree (text : String) : (Value.string text).tree.string? = some text := rfl

theorem variant?_tree (key : String) (value : Value) :
    (Value.object [(key, value)]).tree.variant? = some (key, value.tree) := rfl

/-- Where keys are distinct, a key has one value or none. -/
theorem under_map_tree {members : List (String × Value)} (distinct : (Keyed.keys members).Nodup)
    (name : String) :
    under name (members.map fun (key, value) => (key, value.tree)) =
      ((Keyed.get? name members).map Value.tree).toList := by
  induction members with
  | nil => rfl
  | cons member rest ih =>
      obtain ⟨key, value⟩ := member
      obtain ⟨fresh, others⟩ := List.nodup_cons.mp distinct
      have later := ih others
      unfold under at later ⊢
      by_cases same : key = name
      · subst same
        rw [Keyed.get?_eq_none_iff.mpr fresh] at later
        simp [Keyed.get?, later]
      · simp [Keyed.get?, same, later]

/-- A written record has the fields that its members name. -/
theorem record?_tree {members : List (String × Value)} (distinct : (Keyed.keys members).Nodup)
    (names : List String) :
    (Value.object members).tree.record? names =
      some (names.map fun name => (Keyed.get? name members).map Value.tree) := by
  have known := members?_tree members
  rw [Value.tree] at known ⊢
  simp only [record?, known, Option.bind_eq_bind, Option.bind_some]
  induction names with
  | nil => rfl
  | cons name rest ih =>
      rw [List.mapM_cons, ih, under_map_tree distinct, List.map_cons]
      cases Keyed.get? name members <;> rfl

theorem record?_variant (name : String) (value : Value) :
    (Value.object [(name, value)]).tree.record? [name] = some [some value.tree] := by
  have distinct : (Keyed.keys [(name, value)]).Nodup := by simp [Keyed.keys]
  simp [record?_tree distinct, Keyed.get?]

/-- The items of a list, some of which may be nested too deep. -/
theorem mapM_within {α β : Type} {take : α → Option β} {give : β → α} {within : β → Prop}
    [DecidablePred within] {items : List β}
    (each : ∀ item ∈ items, take (give item) = if within item then some item else none) :
    (items.map give).mapM take = if ∀ item ∈ items, within item then some items else none := by
  induction items with
  | nil => rfl
  | cons item rest ih =>
      obtain ⟨first, others⟩ := List.forall_mem_cons.mp each
      rw [List.map_cons, List.mapM_cons, first, ih others]
      simp only [List.forall_mem_cons]
      by_cases here : within item
      · by_cases there : ∀ other ∈ rest, within other
        · rw [if_pos here, if_pos there, if_pos ⟨here, there⟩]
          rfl
        · have some_outside : ¬ (within item ∧ ∀ other ∈ rest, within other) :=
            fun both => there both.2
          rw [if_pos here, if_neg there, if_neg some_outside]
          rfl
      · have some_outside : ¬ (within item ∧ ∀ other ∈ rest, within other) :=
          fun both => here both.1
        rw [if_neg here, if_neg some_outside]
        rfl

/-- A written list is taken if each of its items is. -/
theorem listOf?_tree {α : Type} {take : Tree → Option α} {write : α → Value}
    {within : α → Prop} [DecidablePred within] {items : List α}
    (each : ∀ item ∈ items, take (write item).tree = if within item then some item else none) :
    listOf? take (Value.array (items.map write)).tree =
      if ∀ item ∈ items, within item then some items else none := by
  rw [Value.tree, Value.itemTrees_eq_map, List.map_map]
  exact mapM_within each

/-- Written members are taken if each of their values is. -/
theorem mapM_members {α : Type} {take : Tree → Option α} {write : α → Value}
    {within : α → Prop} [DecidablePred within] {pairs : List (String × α)}
    (each : ∀ pair ∈ pairs,
      take (write pair.2).tree = if within pair.2 then some pair.2 else none) :
    ((pairs.map fun (key, item) => (key, write item)).map fun (key, value) =>
      (key, value.tree)).mapM (fun (key, tree) => (take tree).map fun item => (key, item)) =
        if ∀ pair ∈ pairs, within pair.2 then some pairs else none := by
  have paired : ∀ pair ∈ pairs, ((take (write pair.2).tree).map fun item => (pair.1, item)) =
      if within pair.2 then some pair else none := by
    intro pair member
    rw [each pair member]
    split <;> rfl
  rw [List.map_map]
  exact mapM_within paired

theorem integerIn?_tree {low high number : Int} (least : -(2 ^ 63) ≤ low)
    (most : high < 2 ^ 64) (above : low ≤ number) (below : number ≤ high) :
    (Value.integer number).tree.integerIn? low high = some number := by
  have taken : (Value.integer number).tree.integer? = some number := by
    rw [Value.tree, integer?, Numeral.number?_ofInteger (by omega) (by omega)]
  simp [integerIn?, taken, above, below]

end Tree

end ArchiveRemap.Json
