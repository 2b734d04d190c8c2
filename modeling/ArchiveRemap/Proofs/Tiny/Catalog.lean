import ArchiveRemap.Tiny.Catalog

/-!
Tables that are kept. A catalog gives the table that its graph and its mapping data make,
however many tables it made or forgot before.
-/

namespace ArchiveRemap

namespace Catalog

variable {catalog : Catalog} {source target : Nat}

theorem graph_table : (catalog.table source target).2.graph = catalog.graph := by
  unfold table
  cases catalog.tables.get? (source, target) with
  | some found => rfl
  | none => cases makeTable catalog.graph catalog.tree source target <;> rfl

theorem tree_table : (catalog.table source target).2.tree = catalog.tree := by
  unfold table
  cases catalog.tables.get? (source, target) with
  | some found => rfl
  | none => cases makeTable catalog.graph catalog.tree source target <;> rfl

section Faithful

variable (faithful : ∀ source target table, catalog.tables.get? (source, target) = some table →
  makeTable catalog.graph catalog.tree source target = .ok table)

include faithful

theorem table_eq : (catalog.table source target).1 =
    makeTable catalog.graph catalog.tree source target := by
  unfold table
  cases known : catalog.tables.get? (source, target) with
  | some found => exact (faithful source target found known).symm
  | none => cases makeTable catalog.graph catalog.tree source target <;> rfl

theorem table_faithful (near far : Nat) (made : RenameTable)
    (found : (catalog.table source target).2.tables.get? (near, far) = some made) :
    makeTable catalog.graph catalog.tree near far = .ok made := by
  unfold table at found
  cases known : catalog.tables.get? (source, target) with
  | some table =>
      rw [known] at found
      exact faithful near far made found
  | none =>
      rw [known] at found
      cases fresh : makeTable catalog.graph catalog.tree source target with
      | error fault =>
          rw [fresh] at found
          exact faithful near far made found
      | ok table =>
          rw [fresh] at found
          change (Keyed.put (source, target) table catalog.tables).get? (near, far) = _ at found
          rw [Keyed.get?_put] at found
          split at found
          · rename_i same
            cases same
            cases found
            exact fresh
          · exact faithful near far made found

end Faithful

/-- A catalog after any number of requests. -/
inductive Used (graph : Graph) (tree : Tiny.Tree) : Catalog → Prop where
  | new : Used graph tree (.ofTree graph tree)
  | asked {catalog : Catalog} (before : Used graph tree catalog) (source target : Nat) :
      Used graph tree (catalog.table source target).2
  | invalidated {catalog : Catalog} (before : Used graph tree catalog) :
      Used graph tree catalog.invalidate

/-- A table that a catalog of a graph and of mapping data can give. -/
def Serves (graph : Graph) (tree : Tiny.Tree) (source target : Nat) (table : RenameTable) : Prop :=
  ∃ catalog, Used graph tree catalog ∧ (catalog.table source target).1 = .ok table

theorem Used.faithful {graph : Graph} {tree : Tiny.Tree} {catalog : Catalog}
    (used : Used graph tree catalog) :
    catalog.graph = graph ∧ catalog.tree = tree ∧
      ∀ source target table, catalog.tables.get? (source, target) = some table →
        makeTable catalog.graph catalog.tree source target = .ok table := by
  induction used with
  | new =>
      refine ⟨rfl, rfl, ?_⟩
      intro source target table found
      cases found
  | asked before source target ih =>
      obtain ⟨graph, tree, faithful⟩ := ih
      refine ⟨graph_table.trans graph, tree_table.trans tree, ?_⟩
      rw [graph_table, tree_table]
      exact table_faithful faithful
  | invalidated before ih =>
      refine ⟨ih.1, ih.2.1, ?_⟩
      intro source target table found
      cases found

theorem serves_iff {graph : Graph} {tree : Tiny.Tree} {table : RenameTable} :
    Serves graph tree source target table ↔ makeTable graph tree source target = .ok table := by
  constructor
  · rintro ⟨catalog, used, given⟩
    obtain ⟨rfl, rfl, faithful⟩ := used.faithful
    exact (table_eq faithful).symm.trans given
  · intro made
    refine ⟨.ofTree graph tree, .new, ?_⟩
    rw [table_eq (by intro _ _ _ found; cases found)]
    exact made

end Catalog

end ArchiveRemap
