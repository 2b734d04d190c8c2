import ArchiveRemap.Mixin.Refmap
import ArchiveRemap.Proofs.Json.Levels

/-!
Reference maps as text. A map is written as a document of three levels and read back as the
same map, whatever its classes, symbols and references are.
-/

namespace ArchiveRemap.Mixin.ReferenceMap

open Json (Value Tree)

theorem fits_entriesToJson (entries : ClassEntries) : (entriesToJson entries).Fits 1 := by
  refine .object fun member inside => ?_
  obtain ⟨pair, -, rfl⟩ := List.mem_map.mp inside
  exact .string _

theorem fits_toJson (refmap : ReferenceMap) : refmap.toJson.Fits 3 := by
  refine .object fun member inside => ?_
  rw [List.mem_singleton.mp inside]
  refine .object fun member inside => ?_
  obtain ⟨pair, -, rfl⟩ := List.mem_map.mp inside
  exact fits_entriesToJson pair.2

theorem takeEntries?_entriesToJson (entries : ClassEntries) :
    takeEntries? (entriesToJson entries).tree = some entries := by
  have members := @Tree.mapM_members _ Tree.string? .string (fun _ => True) _ entries.entries
    fun pair _ => Tree.string?_tree pair.2
  simp only [takeEntries?, entriesToJson, Tree.members?_tree, members, implies_true, if_true,
    Option.bind_eq_bind, Option.bind_some, Dictionary.ofList_entries]

theorem takeMappings?_tree (mappings : Dictionary ClassEntries) :
    takeMappings? (Value.object (mappings.entries.map fun (className, entries) =>
      (className, entriesToJson entries))).tree = some mappings := by
  have members := @Tree.mapM_members _ takeEntries? entriesToJson (fun _ => True) _
    mappings.entries fun pair _ => takeEntries?_entriesToJson pair.2
  simp only [takeMappings?, Tree.members?_tree, members, implies_true, if_true,
    Option.bind_eq_bind, Option.bind_some, Dictionary.ofList_entries]

/-- What is written for a map is read back as the map. -/
theorem parse?_write (refmap : ReferenceMap) : parse? refmap.write = some refmap := by
  have mappings := takeMappings?_tree refmap.mappings
  rw [parse?, write, Json.parse?_indentedText refmap.fits_toJson, Option.bind_some, take?, toJson,
    Tree.record?_tree (by simp [Keyed.keys])]
  simp only [List.map_cons, List.map_nil, Keyed.get?, if_true, Option.map_some,
    Option.bind_eq_bind, Option.bind_some, Tree.orAbsent, mappings]

end ArchiveRemap.Mixin.ReferenceMap
