import ArchiveRemap.Hierarchy.Renamer
import ArchiveRemap.Proofs.Hierarchy.Lookup

/-!
Hierarchies that differ in the order of their classes only. Nothing that is looked up in one
can tell it from the other: a search follows the declared supertypes, and the list of all
classes only says which names are still unseen.
-/

namespace ArchiveRemap

namespace Hierarchy

/-- The same classes, perhaps in another order. -/
structure Alike (left right : Hierarchy) : Prop where
  class? : left.class? = right.class?
  keys : left.classes.keys.Perm right.classes.keys

theorem visit_perm {parents : String → List String} {unseen queue : List String}
    {other : List String} (same : unseen.Perm other) :
    visit parents unseen queue = visit parents other queue := by
  induction unseen, queue using visit.induct parents generalizing other with
  | case1 unseen => rw [visit_nil, visit_nil]
  | case2 unseen current rest member ih =>
      rw [visit_of_mem member, visit_of_mem (same.mem_iff.mp member), ih (same.erase current)]
  | case3 unseen current rest absent ih =>
      rw [visit_of_not_mem absent, visit_of_not_mem fun member => absent (same.mem_iff.mpr member),
        ih same]

namespace Alike

variable {left right : Hierarchy} (alike : left.Alike right)
include alike

theorem knows : left.knows = right.knows := by
  funext name
  rw [Hierarchy.knows, Hierarchy.knows, alike.class?]

theorem parents : left.parents = right.parents := by
  funext name
  rw [Hierarchy.parents, Hierarchy.parents, alike.class?]

theorem ancestors : left.ancestors = right.ancestors := by
  funext name
  rw [Hierarchy.ancestors, Hierarchy.ancestors, alike.parents, visit_perm alike.keys]

theorem resolve : left.resolve = right.resolve := by
  have searched : left.searched = right.searched := by
    funext owner recursive
    rw [Hierarchy.searched, Hierarchy.searched, alike.ancestors, alike.knows]
  have declared : left.declared = right.declared := by
    funext query owner
    rw [Hierarchy.declared, Hierarchy.declared, alike.class?]
  funext query owner recursive mode
  simp only [Hierarchy.resolve, searched, declared]

end Alike

/-! Hierarchies of some classes. -/

theorem class?_insert (hierarchy : Hierarchy) (info : ClassShape) (name : String) :
    (hierarchy.insert info).class? name =
      (hierarchy.class? name).or (if info.name = name then some info else none) :=
  Keyed.get?_putNew ..

theorem class?_foldl_insert (nodes : List ClassNode) (hierarchy : Hierarchy) (name : String) :
    (nodes.foldl (fun done node => done.insert (.ofNode node)) hierarchy).class? name =
      (hierarchy.class? name).or ((nodes.find? (·.name = name)).map .ofNode) := by
  induction nodes generalizing hierarchy with
  | nil => simp
  | cons node rest ih =>
      rw [List.foldl_cons, ih, class?_insert, Option.or_assoc]
      by_cases hit : node.name = name <;> simp [ClassShape.ofNode, hit]

theorem class?_ofNodes (nodes : List ClassNode) (name : String) :
    (ofNodes nodes).class? name = (nodes.find? (·.name = name)).map .ofNode := by
  rw [ofNodes, class?_foldl_insert]
  rfl

/-- Hierarchies that come from adding classes. -/
inductive Built : Hierarchy → Prop where
  | empty : Built empty
  | insert {hierarchy : Hierarchy} (built : Built hierarchy) (info : ClassShape) :
      Built (hierarchy.insert info)

/-- No class is there twice. -/
theorem Built.distinct {hierarchy : Hierarchy} (built : hierarchy.Built) :
    hierarchy.classes.keys.Nodup := by
  induction built with
  | empty => exact List.nodup_nil
  | insert built info ih => exact Keyed.keys_putNew_nodup _ _ _ ih

theorem built_ofNodes (nodes : List ClassNode) : (ofNodes nodes).Built :=
  List.foldlRecOn nodes _ .empty fun _ built node _ => built.insert (.ofNode node)

/-- Hierarchies that find the same classes hold the same names. -/
theorem alike_ofNodes {left right : List ClassNode}
    (same : (ofNodes left).class? = (ofNodes right).class?) :
    (ofNodes left).Alike (ofNodes right) where
  class? := same
  keys := by
    rw [List.perm_ext_iff_of_nodup (built_ofNodes left).distinct (built_ofNodes right).distinct]
    intro name
    rw [mem_keys_iff, mem_keys_iff, knows, knows, same]

/-- Among distinct names it does not matter where a node stands. -/
theorem find?_name_of_perm {left right : List ClassNode} (same : left.Perm right)
    (distinct : (right.map (·.name)).Nodup) (name : String) :
    left.find? (·.name = name) = right.find? (·.name = name) := by
  induction same with
  | nil => rfl
  | cons node rest ih =>
      rw [List.find?_cons, List.find?_cons, ih (List.nodup_cons.mp distinct).2]
  | swap first second rest =>
      have apart : second.name ≠ first.name := fun equal =>
        (List.nodup_cons.mp distinct).1 (by simp [equal])
      by_cases hit : first.name = name
      · subst hit
        simp [apart]
      · simp [List.find?_cons, hit]
  | trans first second firstIh secondIh =>
      rw [firstIh ((second.map _).nodup_iff.mpr distinct), secondIh distinct]

theorem alike_of_perm {left right : List ClassNode} (same : left.Perm right)
    (distinct : (right.map (·.name)).Nodup) (others : List ClassNode) :
    (ofNodes (left ++ others)).Alike (ofNodes (right ++ others)) := by
  refine alike_ofNodes (funext fun name => ?_)
  rw [class?_ofNodes, class?_ofNodes, List.find?_append, List.find?_append,
    find?_name_of_perm same distinct]

end Hierarchy

/-! Renamers against such hierarchies. -/

namespace Renamer

/-- One table against hierarchies that differ in the order of their classes. -/
structure Alike (left right : Renamer) : Prop where
  table : left.table = right.table
  hierarchy : left.hierarchy.Alike right.hierarchy

namespace Alike

variable {left right : Renamer} (alike : left.Alike right)
include alike

theorem knows : left.knows = right.knows := alike.hierarchy.knows

theorem mapClass : left.mapClass = right.mapClass := by
  funext name
  rw [Renamer.mapClass, Renamer.mapClass, alike.table]

theorem mapDesc : left.mapDesc = right.mapDesc := by
  funext desc
  rw [Renamer.mapDesc, Renamer.mapDesc, alike.table]

theorem mapMember : left.mapMember = right.mapMember := by
  have inherited : left.inherited? = right.inherited? := by
    funext kind owner name desc
    rw [Renamer.inherited?, Renamer.inherited?, alike.table, alike.hierarchy.ancestors]
  funext kind owner name desc
  rw [Renamer.mapMember, Renamer.mapMember, inherited]

theorem mapRef : left.mapRef = right.mapRef := by
  funext kind member
  rw [Renamer.mapRef, Renamer.mapRef, alike.mapMember]

end Alike

end Renamer

end ArchiveRemap
