import ArchiveRemap.Archive.Document
import ArchiveRemap.Proofs.Json.Levels
import Mathlib.Tactic.SplitIfs

/-!
Annotations as JSON values. An element is taken back from its document wherever its levels have
room, whatever stands around it, and the names of an annotation keep their order.
-/

namespace ArchiveRemap

open Json (Value Tree)
open Json.Value (levels memberLevels)

/-- In every annotation the names of its elements differ. -/
inductive Element.Distinct : Element → Prop where
  | bool (truth : Bool) : Distinct (.bool truth)
  | int (number : Int64) : Distinct (.int number)
  | string (text : String) : Distinct (.string text)
  | type (desc : String) : Distinct (.type desc)
  | constant (desc value : String) : Distinct (.constant desc value)
  | array {items : List Element} (each : ∀ item ∈ items, Distinct item) : Distinct (.array items)
  | nested {desc : String} {values : List (String × Element)}
      (names : (Keyed.keys values).Nodup) (each : ∀ pair ∈ values, Distinct pair.2) :
      Distinct (.nested desc values)

structure AnnotationNode.Distinct (note : AnnotationNode) : Prop where
  names : note.values.keys.Nodup
  each : ∀ pair ∈ note.values, pair.2.Distinct

theorem elementsToJson_eq_map (items : List Element) :
    elementsToJson items = items.map Element.toJson := by
  induction items with
  | nil => rfl
  | cons item rest ih => rw [elementsToJson, ih, List.map_cons]

theorem valuesToJson_eq_map (values : List (String × Element)) :
    valuesToJson values = values.map fun (name, item) => (name, item.toJson) := by
  induction values with
  | nil => rfl
  | cons pair rest ih => rw [valuesToJson, ih, List.map_cons]

theorem Element.toJson_nested (desc : String) (values : List (String × Element)) :
    (Element.nested desc values).toJson =
      .object [("annotation", (AnnotationNode.mk desc values).toJson)] := by
  cases values <;> rfl

/-- An element is taken back wherever its levels have room. -/
def Element.Returns (element : Element) : Prop :=
  ∀ room, Element.take? room element.toJson.tree =
    if element.toJson.levels ≤ room then some element else none

namespace AnnotationNode

theorem take?_plain (desc : String) (room : Nat) :
    take? (room + 1) (Value.object [("desc", .string desc)]).tree = some ⟨desc, []⟩ := rfl

theorem take?_low (desc : String) (values : Value) :
    take? 1 (Value.object [("desc", .string desc), ("values", values)]).tree = none := rfl

theorem take?_valued (desc : String) (values : Value) (room : Nat) :
    take? (room + 2) (Value.object [("desc", .string desc), ("values", values)]).tree = (do
      let pairs ← (← values.tree.members?).mapM fun (name, value) =>
        (Element.take? room value).map fun element => (name, element)
      some ⟨desc, Keyed.ofList pairs⟩) := rfl

theorem take?_tree {note : AnnotationNode} (names : note.values.keys.Nodup)
    (each : ∀ pair ∈ note.values, pair.2.Returns) (room : Nat) :
    take? room note.toJson.tree = if note.toJson.levels ≤ room then some note else none := by
  obtain ⟨desc, values⟩ := note
  cases values with
  | nil =>
      cases room with
      | zero => rfl
      | succ room =>
          have single : (AnnotationNode.mk desc []).toJson.levels = 1 := rfl
          rw [single, if_pos (by omega)]
          exact take?_plain desc room
  | cons value rest =>
      have written : (AnnotationNode.mk desc (value :: rest)).toJson = .object
          [("desc", .string desc), ("values", .object (valuesToJson (value :: rest)))] := rfl
      have tall : (AnnotationNode.mk desc (value :: rest)).toJson.levels =
          memberLevels (valuesToJson (value :: rest)) + 2 := by
        simp [written, levels, memberLevels]
      rw [tall, written]
      cases room with
      | zero => rfl
      | succ room =>
          cases room with
          | zero => exact take?_low desc _
          | succ room =>
              -- The object and its list take two levels; the elements have what is left.
              have members := @Tree.mapM_members _ (Element.take? room) Element.toJson
                (·.toJson.levels ≤ room) _ (value :: rest)
                fun pair member => each pair member room
              have distinct : Keyed.ofList (value :: rest) = value :: rest :=
                Keyed.ofList_of_nodup names
              rw [take?_valued, Tree.members?_tree, valuesToJson_eq_map]
              simp only [Option.bind_eq_bind, Option.bind_some, members]
              simp only [Nat.add_le_add_iff_right, Value.memberLevels_le_iff,
                List.forall_mem_map]
              split_ifs
              · rw [Option.bind_some, distinct]
              · rfl

end AnnotationNode

/-- Where there is no room at all there is no element either. -/
theorem Element.returns_of_succ {element : Element}
    (taken : ∀ room, Element.take? (room + 1) element.toJson.tree =
      if element.toJson.levels ≤ room + 1 then some element else none) : element.Returns := by
  intro room
  cases room with
  | succ room => exact taken room
  | zero =>
      have tall : ¬ element.toJson.levels ≤ 0 := by
        fun_cases Element.toJson element <;> simp [levels]
      rw [if_neg tall, Element.take?]

theorem Element.Distinct.returns {element : Element} (distinct : element.Distinct) :
    element.Returns := by
  induction distinct with
  | bool truth =>
      apply returns_of_succ
      intro room
      rw [toJson, take?, Tree.variant?_tree, Value.levels_variant]
      simp [levels, Value.tree, Tree.bool?]
  | int number =>
      apply returns_of_succ
      intro room
      -- Every 64 bit number is written in full, so it is back in range when it is read.
      have back : (Value.integer number.toInt).tree.integerIn? (-(2 ^ 63)) (2 ^ 63 - 1) =
          some number.toInt :=
        Tree.integerIn?_tree (by decide) (by decide) number.le_toInt
          (Int.le_sub_one_of_lt number.toInt_lt)
      rw [toJson, take?, Tree.variant?_tree, Value.levels_variant]
      simp only [Option.bind_eq_bind, Option.bind_some, back]
      simp [levels]
  | string text =>
      apply returns_of_succ
      intro room
      rw [toJson, take?, Tree.variant?_tree, Value.levels_variant]
      simp [levels, Tree.string?_tree]
  | type desc =>
      apply returns_of_succ
      intro room
      rw [toJson, take?, Tree.variant?_tree, Value.levels_variant]
      simp [levels, Tree.string?_tree]
  | constant desc value =>
      apply returns_of_succ
      intro room
      have fields := @Tree.record?_tree [("desc", .string desc), ("value", .string value)]
        (by simp [Keyed.keys]) ["desc", "value"]
      rw [toJson, take?, Tree.variant?_tree, Value.levels_variant]
      cases room with
      | zero => simp [levels]
      | succ room =>
          simp only [Option.bind_eq_bind, Option.bind_some, fields]
          simp [levels, memberLevels, Keyed.get?, Tree.string?_tree]
  | @array items each ih =>
      apply returns_of_succ
      intro room
      rw [toJson, take?, Tree.variant?_tree, Value.levels_variant]
      cases room with
      | zero => simp [levels]
      | succ room =>
          have taken := @Tree.listOf?_tree _ (take? room) toJson (·.toJson.levels ≤ room) _ items
            fun item member => ih item member room
          simp [levels, elementsToJson_eq_map, taken, Value.itemLevels_le_iff]
  | @nested desc values names each ih =>
      apply returns_of_succ
      intro room
      have taken := @AnnotationNode.take?_tree ⟨desc, values⟩ names ih room
      rw [toJson_nested, take?, Tree.variant?_tree, Value.levels_variant]
      simp only [Option.bind_eq_bind, Option.bind_some, taken]
      by_cases within : (AnnotationNode.mk desc values).toJson.levels ≤ room <;> simp [within]

theorem AnnotationNode.Distinct.take?_toJson {note : AnnotationNode} (distinct : note.Distinct)
    (room : Nat) :
    AnnotationNode.take? room note.toJson.tree =
      if note.toJson.levels ≤ room then some note else none :=
  take?_tree distinct.names (fun pair member => (distinct.each pair member).returns) room

/-! Numbers are in their ranges. -/

theorem AnnotationNode.legal_toJson {desc : String} {values : List (String × Element)}
    (each : ∀ pair ∈ values, pair.2.toJson.Legal) :
    (AnnotationNode.mk desc values).toJson.Legal := by
  apply Value.legal_object
  rw [List.forall_mem_cons]
  constructor
  · exact Value.legal_string desc
  · cases values with
    | nil => exact fun _ member => nomatch member
    | cons value rest =>
        have written : (Value.object (valuesToJson (value :: rest))).Legal := by
          apply Value.legal_object
          rw [valuesToJson_eq_map, List.forall_mem_map]
          exact each
        simpa using written

theorem Element.Distinct.legal {element : Element} (distinct : element.Distinct) :
    element.toJson.Legal := by
  induction distinct with
  | bool truth => exact Value.legal_variant (.bool truth)
  | int number =>
      have low := number.le_toInt
      have high := number.toInt_lt
      exact Value.legal_variant (Value.legal_integer low (by omega))
  | string text => exact Value.legal_variant (Value.legal_string text)
  | type desc => exact Value.legal_variant (Value.legal_string desc)
  | constant desc value =>
      apply Value.legal_variant
      apply Value.legal_object
      simp [Value.legal_string]
  | array each ih =>
      apply Value.legal_variant
      apply Value.legal_array
      rw [elementsToJson_eq_map, List.forall_mem_map]
      exact ih
  | @nested desc values names each ih =>
      rw [toJson_nested]
      apply Value.legal_variant
      exact AnnotationNode.legal_toJson ih

theorem AnnotationNode.Distinct.legal {note : AnnotationNode} (distinct : note.Distinct) :
    note.toJson.Legal :=
  legal_toJson fun pair member => (distinct.each pair member).legal

end ArchiveRemap
