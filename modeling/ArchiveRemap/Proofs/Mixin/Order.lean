import Mathlib.Data.List.Nodup
import ArchiveRemap.Proofs.Hierarchy.Order
import ArchiveRemap.Proofs.Mixin.Run

/-!
The order of the classes does not matter to the work on mixins. What a class finds does not
depend on the other classes but through the hierarchy, whose order nothing can see. The new
names are put together in the order of the class names. The references of two classes
commute, since they are kept by class.
-/

namespace ArchiveRemap.Mixin

/-! Scopes whose renamers differ in the order of their classes. -/

namespace Scope

variable {left right : Renamer} {className : String} {targets : List String}
  {existing : Option ClassEntries} {wildcards : Bool} (alike : left.Alike right)

section

include alike

theorem lookup_congr :
    (mk className targets existing left wildcards).lookup =
      (mk className targets existing right wildcards).lookup := by
  funext query mode owner
  simp only [lookup, alike.hierarchy.resolve]

theorem knownMember?_congr :
    (mk className targets existing left wildcards).knownMember? =
      (mk className targets existing right wildcards).knownMember? := by
  funext kind owners symbol
  simp only [knownMember?, known?, lookup_congr alike]

theorem find_congr :
    (mk className targets existing left wildcards).find =
      (mk className targets existing right wildcards).find := by
  funext query mode owners symbol
  simp only [find, lookup_congr alike, knownMember?_congr alike]

theorem newName_congr :
    (mk className targets existing left wildcards).newName =
      (mk className targets existing right wildcards).newName := by
  funext kind member
  simp only [newName, alike.mapRef]

theorem memberValue_congr :
    (mk className targets existing left wildcards).memberValue =
      (mk className targets existing right wildcards).memberValue := by
  funext kind owner member
  simp only [memberValue, newName_congr alike, alike.mapClass, alike.mapDesc]

theorem targetFinding_congr :
    (mk className targets existing left wildcards).targetFinding =
      (mk className targets existing right wildcards).targetFinding := by
  funext name
  simp only [targetFinding, targetClass?, known?, warn, alike.knows, alike.mapClass]

theorem methodTargetFindings_congr :
    (mk className targets existing left wildcards).methodTargetFindings =
      (mk className targets existing right wildcards).methodTargetFindings := by
  funext label target
  simp only [methodTargetFindings, find_congr alike, newName_congr alike, ownerMark, warn,
    failure, alike.mapClass, alike.mapDesc]

theorem pointFindings_congr :
    (mk className targets existing left wildcards).pointFindings =
      (mk className targets existing right wildcards).pointFindings := by
  funext label target
  simp only [pointFindings, pointMemberFinding, pointClassFinding, find_congr alike,
    memberValue_congr alike, known?, warn, failure, alike.knows, alike.mapClass, alike.mapDesc]

theorem classArgumentFindings_congr :
    (mk className targets existing left wildcards).classArgumentFindings =
      (mk className targets existing right wildcards).classArgumentFindings := by
  funext label argument
  simp only [classArgumentFindings, known?, warn, alike.knows, alike.mapClass]

theorem accessorFindings_congr :
    (mk className targets existing left wildcards).accessorFindings =
      (mk className targets existing right wildcards).accessorFindings := by
  funext names desc
  simp only [accessorFindings, find_congr alike, newName_congr alike, warn, failure,
    alike.mapDesc]

theorem invokerFindings_congr :
    (mk className targets existing left wildcards).invokerFindings =
      (mk className targets existing right wildcards).invokerFindings := by
  funext names desc
  simp only [invokerFindings, find_congr alike, newName_congr alike, warn, failure,
    alike.mapDesc]

theorem shadowFinding_congr :
    (mk className targets existing left wildcards).shadowFinding =
      (mk className targets existing right wildcards).shadowFinding := by
  funext kind name desc marker
  simp only [shadowFinding, find_congr alike, newName_congr alike, warn, failure]

theorem overwriteFinding_congr :
    (mk className targets existing left wildcards).overwriteFinding =
      (mk className targets existing right wildcards).overwriteFinding := by
  funext name desc
  simp only [overwriteFinding, find_congr alike, newName_congr alike, warn, failure]

theorem softFindings_congr :
    (mk className targets existing left wildcards).softFindings =
      (mk className targets existing right wildcards).softFindings := by
  have tasks : (mk className targets existing left wildcards).softTaskFindings =
      (mk className targets existing right wildcards).softTaskFindings := by
    funext task
    simp only [softTaskFindings, methodTargetFindings_congr alike, pointFindings_congr alike,
      classArgumentFindings_congr alike, accessorFindings_congr alike,
      invokerFindings_congr alike]
  funext work
  simp only [softFindings, tasks]

theorem hardFindings_congr :
    (mk className targets existing left wildcards).hardFindings =
      (mk className targets existing right wildcards).hardFindings := by
  have tasks : (mk className targets existing left wildcards).hardTaskFindings =
      (mk className targets existing right wildcards).hardTaskFindings := by
    funext task
    simp only [hardTaskFindings, shadowFinding_congr alike, overwriteFinding_congr alike]
  funext work
  simp only [hardFindings, tasks]

theorem targetFindings_congr :
    targetFindings (mk className targets existing left wildcards) =
      targetFindings (mk className targets existing right wildcards) := by
  funext work
  simp only [targetFindings, targetFinding_congr alike]

end

end Scope

/-! What single classes come to. -/

namespace Hop

variable {registry : Registry} {options : Options} {inputs : Inputs} {left right : Renamer}
  (alike : left.Alike right)

section

include alike

theorem processClass_congr :
    (mk registry options inputs left).processClass =
      (mk registry options inputs right).processClass := by
  funext work
  simp only [processClass, scope, Scope.targetFindings_congr alike,
    Scope.hardFindings_congr alike]

theorem finishClass_congr :
    (mk registry options inputs left).finishClass =
      (mk registry options inputs right).finishClass := by
  funext work
  simp only [finishClass, scope, Scope.softFindings_congr alike]

theorem early_congr :
    (mk registry options inputs left).early = (mk registry options inputs right).early := by
  funext work
  simp only [early, processClass_congr alike]

theorem late_congr :
    (mk registry options inputs left).late = (mk registry options inputs right).late := by
  funext work
  simp only [late, prepared, processClass_congr alike, finishClass_congr alike]

theorem references_congr :
    (mk registry options inputs left).references =
      (mk registry options inputs right).references := by
  funext work
  simp only [references, prepared, processClass_congr alike, finishClass_congr alike]

end

end Hop

/-! References of different classes. -/

theorem ReferenceMap.extend_comm (refmap : ReferenceMap) {first second : String}
    (different : first ≠ second) (left right : ClassEntries) :
    (refmap.extend first left).extend second right =
      (refmap.extend second right).extend first left := by
  cases noLeft : left.isEmpty with
  | true => simp [extend, noLeft]
  | false =>
      cases noRight : right.isEmpty with
      | true => simp [extend, noRight]
      | false =>
          simp only [extend, noLeft, noRight, class?, Dictionary.get?_insert, if_neg different,
            if_neg (Ne.symm different), Bool.false_eq_true, if_false]
          rw [Dictionary.insert_comm different]

theorem Refmaps.add_comm (refmaps : Refmaps) {first second : String}
    (different : first ≠ second) (firstFile secondFile : String) (left right : ClassEntries) :
    (refmaps.add firstFile first left).add secondFile second right =
      (refmaps.add secondFile second right).add firstFile first left := by
  cases noLeft : left.isEmpty with
  | true => simp [add, noLeft]
  | false =>
      cases noRight : right.isEmpty with
      | true => simp [add, noRight]
      | false =>
          simp only [add, noLeft, noRight, Dictionary.get?_insert, Bool.false_eq_true, if_false]
          by_cases here : firstFile = secondFile
          · subst here
            simp only [if_true, Option.getD_some, Dictionary.insert_insert,
              ReferenceMap.extend_comm _ different]
          · rw [if_neg here, if_neg (Ne.symm here), Dictionary.insert_comm here]

namespace Hop

variable {hop : Hop}

/-- Works of distinct classes come in one order by name. -/
theorem byName_eq_of_perm {left right : List MixinWork} (same : left.Perm right)
    (distinct : (right.map (·.className)).Nodup) : byName left = byName right := by
  have sorted (works : List MixinWork) :
      (byName works).Pairwise fun first second => first.className ≤ second.className := by
    have made := @List.pairwise_mergeSort MixinWork
      (fun first second => first.className ≤ second.className)
      (fun _ _ _ below above => by
        simp only [decide_eq_true_eq] at below above ⊢
        exact String.le_trans below above)
      (fun first second => by
        simpa using String.le_total first.className second.className) works
    exact made.imp fun below => of_decide_eq_true below
  refine List.Perm.eq_of_pairwise ?_ (sorted left) (sorted right)
    (((byName_perm left).trans same).trans (byName_perm right).symm)
  intro first second inLeft inRight below above
  exact List.inj_on_of_nodup_map distinct
    (same.mem_iff.mp ((byName_perm left).mem_iff.mp inLeft))
    ((byName_perm right).mem_iff.mp inRight) (String.le_antisymm below above)

/-- References of distinct classes come to the same maps in every order. -/
theorem addReferences_perm {left right : List MixinWork} (same : left.Perm right)
    (distinct : (right.map (·.className)).Nodup) (refmaps : Refmaps) :
    left.foldl hop.addReferences refmaps = right.foldl hop.addReferences refmaps := by
  refine same.foldl_eq' (fun first inFirst second inSecond done => ?_) refmaps
  by_cases alone : first = second
  · rw [alone]
  · refine Refmaps.add_comm done (fun equal => alone ?_) ..
    exact List.inj_on_of_nodup_map distinct (same.mem_iff.mp inFirst) (same.mem_iff.mp inSecond)
      equal

/-! Two hops over the same classes. -/

/-- What comes out of a hop, but for the order of the notices. -/
structure SameOutcome (left right : HopState) : Prop where
  renames : left.renames = right.renames
  refmaps : left.refmaps = right.refmaps
  notices : left.notices.Perm right.notices

variable {registry : Registry} {options : Options} {inputs : Inputs}

/-- A hop comes to one outcome, in whatever order its classes are collected and finished. -/
theorem runIn_order_irrelevant {left right : Renamer} (alike : left.Alike right)
    {nodes collected finished : List ClassNode} (distinct : (nodes.map (·.name)).Nodup)
    (collects : collected.Perm nodes) (finishes : finished.Perm nodes) :
    SameOutcome ((mk registry options inputs left).runIn collected finished)
      ((mk registry options inputs right).run nodes) := by
  obtain ⟨_, ours⟩ := runIn_spec (mk registry options inputs left)
    (finishes.trans collects.symm) ((collects.map _).nodup_iff.mpr distinct)
  obtain ⟨_, theirs⟩ := runIn_spec (mk registry options inputs right) (List.Perm.refl nodes)
    distinct
  have mixinNames := distinct.sublist
    (map_className_sublist (mk registry options inputs right) nodes)
  have sorted : byName ((mk registry options inputs left).mixins collected) =
      byName ((mk registry options inputs right).mixins nodes) :=
    byName_eq_of_perm (collects.filterMap _) mixinNames
  have written : (mk registry options inputs left).addReferences =
      (mk registry options inputs right).addReferences := by
    funext refmaps work
    simp only [addReferences, references_congr alike]
  have renamed : (mk registry options inputs left).addRenames =
      (mk registry options inputs right).addRenames := by
    funext renames work
    simp only [addRenames, early_congr alike]
  rw [ours, run_eq_runIn, theirs]
  constructor
  case renames =>
    dsimp only
    rw [sorted, renamed]
  case refmaps =>
    dsimp only
    rw [written]
    exact addReferences_perm (finishes.filterMap _) mixinNames .empty
  case notices =>
    dsimp only
    rw [sorted, early_congr alike, late_congr alike]
    refine (List.Perm.append_right _ ?_).append ?_
    · exact (collects.filterMap _).flatMap_right _
    · exact (finishes.filterMap _).flatMap_right _

end Hop

end ArchiveRemap.Mixin
