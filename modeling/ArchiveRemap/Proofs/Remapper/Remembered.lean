import ArchiveRemap.Proofs.Remapper.Steady
import ArchiveRemap.Proofs.Remapper.Watched

/-!
What a remapper remembers never shows. Whatever was asked before, and whenever graph and mapping
data were exchanged, a look-up is answered as the data of the day answer it. Of routes exactly
those are kept that were found since the last exchange, and nothing is kept of a failure.
-/

namespace ArchiveRemap

/-! One look-up. -/

namespace RouteCache

variable {cache : RouteCache} {graph : Graph}

theorem get?_route_iff {asked request : Request} {path : List Nat} :
    (cache.route graph asked).2.get? request = some path ↔
      cache.get? request = some path ∨
        asked = request ∧ (cache.route graph asked).1 = .ok path := by
  unfold route
  cases known : cache.get? asked with
  | some found =>
      dsimp only
      constructor
      · exact .inl
      · rintro (before | ⟨rfl, again⟩)
        · exact before
        · cases again
          exact known
  | none =>
      cases graph.route asked with
      | error fault =>
          dsimp only
          constructor
          · exact .inl
          · rintro (before | ⟨-, failed⟩)
            · exact before
            · cases failed
      | ok found =>
          dsimp only
          rw [Keyed.get?_put]
          by_cases same : asked = request
          · subst same
            simp [known]
          · simp [same]

theorem keys_route_nodup (asked : Request) (distinct : cache.keys.Nodup) :
    (cache.route graph asked).2.keys.Nodup := by
  unfold route
  cases cache.get? asked with
  | some found => exact distinct
  | none =>
      cases graph.route asked with
      | error fault => exact distinct
      | ok found => exact Keyed.keys_put_nodup asked found cache distinct

end RouteCache

/-- The routes that a remapper remembers are those that a log of look-ups has found, and every
answer of the log was right. -/
structure Remapper.Remembers (remapper : Remapper) (log : List Lookup) : Prop where
  faithful : remapper.Faithful
  distinct : remapper.routes.keys.Nodup
  kept : ∀ request path, remapper.routes.get? request = some path ↔
    .route request (.ok path) ∈ log
  right : ∀ lookup ∈ log, lookup.Right remapper.graph remapper.catalog.tree

namespace Remapper.Remembers

variable {remapper : Remapper} {log : List Lookup}

/-- Before anything is asked there is nothing to remember. -/
theorem ofUsed {graph : Graph} {tree : Tiny.Tree} {catalog : Catalog}
    (used : Catalog.Used graph tree catalog) (options : HopOptions) :
    (Remapper.ofCatalog catalog options).Remembers [] where
  faithful := ⟨nofun, used.faithful.2.2⟩
  distinct := List.nodup_nil
  kept _ _ := ⟨nofun, nofun⟩
  right := nofun

theorem forgetRoutes (remembers : remapper.Remembers log) :
    { remapper with routes := [] : Remapper }.Remembers [] where
  faithful := ⟨nofun, remembers.faithful.tables⟩
  distinct := List.nodup_nil
  kept _ _ := ⟨nofun, nofun⟩
  right := nofun

theorem forgetTables (remembers : remapper.Remembers log) :
    { remapper with catalog := remapper.catalog.invalidate : Remapper }.Remembers log where
  faithful := ⟨remembers.faithful.routes, nofun⟩
  distinct := remembers.distinct
  kept := remembers.kept
  right := remembers.right

end Remapper.Remembers

/-! Runs, look-up by look-up. -/

namespace Watched

open Run

variable {α β : Type}

/-- The run stays with graph, mapping data and options, and what is remembered after it is what
was remembered before it together with what it looks up. -/
structure Careful (watched : Watched α) : Prop where
  config : ∀ world, (watched.run.run world).2.remapper.config = world.remapper.config
  remembers : ∀ world log, world.remapper.Remembers log →
    (watched.run.run world).2.remapper.Remembers (log ++ watched.lookups world)

theorem careful_plain {run : Run α}
    (still : ∀ world, (run.run world).2.remapper = world.remapper) : (plain run).Careful where
  config world := congrArg Remapper.config (still world)
  remembers world log before := by
    change (run.run world).2.remapper.Remembers (log ++ [])
    rw [still world, List.append_nil]
    exact before

theorem Careful.bind {first : Watched α} {next : α → Watched β} (begins : first.Careful)
    (ends : ∀ value, (next value).Careful) : (first >>= next).Careful where
  config world := by
    rw [bind_run, run_bind]
    have same := begins.config world
    rcases ran : first.run.run world with ⟨fault | value, later⟩
    · rwa [ran] at same
    · rw [ran] at same
      exact ((ends value).config later).trans same
  remembers world log before := by
    have middle := begins.remembers world log before
    rw [lookups_bind, bind_run, run_bind]
    rcases ran : first.run.run world with ⟨fault | value, later⟩
    · rw [ran] at middle
      simpa only [List.append_nil] using middle
    · rw [ran] at middle
      simp only []
      rw [← List.append_assoc]
      exact (ends value).remembers later _ middle

theorem careful_pure (value : α) : (pure value : Watched α).Careful :=
  careful_plain fun _ => rfl

theorem careful_route (request : Request) : (route request).Careful where
  config _ := rfl
  remembers world log before := by
    constructor
    · exact ⟨RouteCache.route_faithful before.faithful.routes request, before.faithful.tables⟩
    · exact RouteCache.keys_route_nodup request before.distinct
    · intro asked path
      apply RouteCache.get?_route_iff.trans
      rw [before.kept, List.mem_append]
      apply or_congr_right
      constructor
      · rintro ⟨rfl, found⟩
        exact List.mem_singleton.mpr (congrArg (Lookup.route request) found.symm)
      · intro member
        injection List.mem_singleton.mp member with same found
        exact ⟨same.symm, found.symm⟩
    · intro lookup member
      rcases List.mem_append.mp member with old | new
      · exact before.right lookup old
      · rw [List.mem_singleton.mp new]
        exact RouteCache.route_eq before.faithful.routes request

theorem careful_table (source target : Nat) : (table source target).Careful where
  config := config_table source target
  remembers world log before := by
    have graph : (world.remapper.catalog.table source target).2.graph = world.remapper.graph :=
      Catalog.graph_table
    have tree : (world.remapper.catalog.table source target).2.tree =
        world.remapper.catalog.tree := Catalog.tree_table
    have right : ∀ lookup ∈ log ++ (table source target).lookups world,
        lookup.Right world.remapper.graph world.remapper.catalog.tree := by
      intro lookup member
      rcases List.mem_append.mp member with old | new
      · exact before.right lookup old
      · rw [List.mem_singleton.mp new]
        exact Catalog.table_eq before.faithful.tables
    constructor
    · constructor
      · intro request path found
        exact (congrArg (·.route request) graph).trans
          (before.faithful.routes request path found)
      · intro near far made found
        have made := Catalog.table_faithful before.faithful.tables near far made found
        exact (congrArg₂ (makeTable · · near far) graph tree).trans made
    · exact before.distinct
    · -- A table is no route, so the routes that the log has found are the old ones.
      intro request path
      apply (before.kept request path).trans
      rw [List.mem_append]
      constructor
      · exact .inl
      · rintro (old | new)
        · exact old
        · cases List.mem_singleton.mp new
    · intro lookup member
      have answered := right lookup member
      rwa [← graph, ← tree] at answered

/-- After a careful run the data are the same, so all that it was answered is right for them. -/
theorem Careful.right {watched : Watched α} (careful : watched.Careful) {world : World}
    {log : List Lookup} (before : world.remapper.Remembers log) :
    ∀ lookup ∈ watched.lookups world,
      lookup.Right world.remapper.graph world.remapper.catalog.tree := by
  intro lookup member
  have same := careful.config world
  have answered := (careful.remembers world log before).right lookup
    (List.mem_append_right log member)
  have graph : (watched.run.run world).2.remapper.graph = world.remapper.graph :=
    congrArg Config.graph same
  have tree : (watched.run.run world).2.remapper.catalog.tree = world.remapper.catalog.tree :=
    congrArg Config.tree same
  rwa [graph, tree] at answered

/-! The runs of a remapper. -/

theorem careful_hop {kind : HopRole} {classpath : Watched (List String)}
    (careful : classpath.Careful) (input : String) (source target : Nat) :
    (hop kind classpath input source target).Careful := by
  apply (careful_plain fun _ => rfl).bind
  intro key
  apply (careful_plain fun _ => rfl).bind
  intro found
  cases found with
  | some path =>
      apply careful_plain
      intro world
      rw [run_bind, run_reading]
      cases failed world.remapper.graph source target
        (Remapper.storedRefmaps world.files path) <;> rfl
  | none =>
      apply (careful_table source target).bind
      intro made
      apply careful.bind
      intro paths
      exact careful_plain fun _ => rfl

theorem careful_hops {hop : String → Nat → Nat → Watched HopResult}
    (careful : ∀ input source target, (hop input source target).Careful) (input : String)
    (source : Nat) (route : List Nat) : (hops hop input source route).Careful := by
  induction route generalizing input source with
  | nil => exact careful_pure []
  | cons target rest ih =>
      apply (careful input source target).bind
      intro report
      apply (ih report.artifact target).bind
      intro reports
      exact careful_pure (report :: reports)

theorem careful_each {step : α → Watched β} (careful : ∀ value, (step value).Careful)
    (values : List α) : (each step values).Careful := by
  induction values with
  | nil => exact careful_pure []
  | cons value rest ih =>
      apply (careful value).bind
      intro result
      apply ih.bind
      intro results
      exact careful_pure (result :: results)

theorem careful_deriveArchive (options : HopOptions) (base : Nat) (route : List Nat)
    (archive : String) : (deriveArchive options base route archive).Careful := by
  apply Careful.bind
  · apply careful_hops
    exact careful_hop (careful_plain fun _ => rfl)
  · exact fun _ => careful_pure _

theorem careful_classpathAt (target : Nat) : (classpathAt target).Careful := by
  apply (careful_plain fun _ => rfl).bind
  intro world
  apply (careful_plain fun _ => rfl).bind
  intro base
  unfold classpathFrom
  dsimp only
  split_ifs
  · exact careful_plain fun _ => rfl
  · exact careful_plain fun _ => rfl
  · apply (careful_route (.direct base target)).bind
    intro route
    apply (careful_each (careful_deriveArchive _ base route) _).bind
    exact fun _ => careful_pure _

theorem careful_remap (request : Request) (input output : String) :
    (remap request input output).Careful := by
  apply (careful_route request).bind
  intro path
  apply (careful_plain fun _ => rfl).bind
  intro world
  apply (careful_hops (fun input source => careful_hop (careful_classpathAt source) input source)
    input request.source path).bind
  intro reports
  apply careful_plain
  intro world
  rw [run_bind, Remapper.run_deliver]
  cases failed world.remapper.graph request.source request.target
    (copyFile world.files (Remapper.lastArtifact input reports) output).1 <;> rfl

end Watched

/-! Everything that may be done with a remapper. -/

/-- A world after a remapper was opened, asked, run and reconfigured any number of times, and the
look-ups since its routes were last dropped. A catalog may have been in use before. Files may
change at any time. -/
inductive Served : World → List Lookup → Prop where
  | opened {graph : Graph} {tree : Tiny.Tree} {catalog : Catalog}
      (used : Catalog.Used graph tree catalog) (options : HopOptions) (files : FileTree)
      (notices : List Notice) : Served ⟨.ofCatalog catalog options, files, notices⟩ []
  | reconfigured {world : World} {log : List Lookup} (before : Served world log)
      {graph : Graph} {tree : Tiny.Tree} {catalog : Catalog}
      (used : Catalog.Used graph tree catalog) :
      Served { world with remapper := world.remapper.withCatalog catalog } []
  | routed {world : World} {log : List Lookup} (before : Served world log) (request : Request) :
      Served ((Run.route request).run world).2 (log ++ (Watched.route request).lookups world)
  | tabled {world : World} {log : List Lookup} (before : Served world log)
      (source target : Nat) :
      Served ((Run.table source target).run world).2
        (log ++ (Watched.table source target).lookups world)
  | remapped {world : World} {log : List Lookup} (before : Served world log)
      (request : Request) (input output : String) :
      Served ((Remapper.remap request input output).run world).2
        (log ++ (Watched.remap request input output).lookups world)
  | routesDropped {world : World} {log : List Lookup} (before : Served world log) :
      Served { world with remapper := { world.remapper with routes := [] } } []
  | tablesDropped {world : World} {log : List Lookup} (before : Served world log) :
      Served { world with remapper := { world.remapper with
        catalog := world.remapper.catalog.invalidate } } log
  | elsewhere {world : World} {log : List Lookup} (before : Served world log)
      (files : FileTree) (notices : List Notice) : Served { world with files, notices } log

namespace Served

variable {world : World} {log : List Lookup}

theorem remembers (served : Served world log) : world.remapper.Remembers log := by
  induction served with
  | opened used options files notices => exact .ofUsed used options
  | @reconfigured world log before graph tree catalog used ih =>
      exact .ofUsed used world.remapper.options
  | routed before request ih => exact (Watched.careful_route request).remembers _ _ ih
  | tabled before source target ih =>
      exact (Watched.careful_table source target).remembers _ _ ih
  | remapped before request input output ih =>
      rw [← Watched.run_remap]
      exact (Watched.careful_remap request input output).remembers _ _ ih
  | routesDropped before ih => exact ih.forgetRoutes
  | tablesDropped before ih => exact ih.forgetTables
  | elsewhere before files notices ih => exact ih

/-- Every route that is asked for, and every route and table that a remap looks up on its way,
is what the present graph and mapping data give. The routes kept are those found since routes
were last dropped, each once, and no failure is kept. -/
theorem answers_as_fresh (served : Served world log) :
    (∀ request, ((Run.route request).run world).1 = world.remapper.graph.route request) ∧
      (∀ request input output,
        (Watched.remap request input output).run = Remapper.remap request input output ∧
          ∀ lookup ∈ (Watched.remap request input output).lookups world,
            lookup.Right world.remapper.graph world.remapper.catalog.tree) ∧
      (world.remapper.routes.keys.Nodup ∧ ∀ request path,
        world.remapper.routes.get? request = some path ↔ .route request (.ok path) ∈ log) ∧
      (∀ request fault, world.remapper.graph.route request = .error fault →
        world.remapper.routes.get? request = none) ∧
      ∀ source target fault,
        makeTable world.remapper.graph world.remapper.catalog.tree source target =
          .error fault → world.remapper.catalog.tables.get? (source, target) = none := by
  have remembers := served.remembers
  refine ⟨?_, ?_, ⟨remembers.distinct, remembers.kept⟩, ?_, ?_⟩
  · intro request
    exact RouteCache.route_eq remembers.faithful.routes request
  · intro request input output
    constructor
    · exact Watched.run_remap request input output
    · exact (Watched.careful_remap request input output).right remembers
  · -- What is kept was found, so a failure is not kept.
    intro request fault failed
    apply Option.eq_none_iff_forall_ne_some.mpr
    intro path found
    have fresh := remembers.faithful.routes request path found
    rw [failed] at fresh
    cases fresh
  · intro source target fault failed
    apply Option.eq_none_iff_forall_ne_some.mpr
    intro made found
    have fresh := remembers.faithful.tables source target made found
    rw [failed] at fresh
    cases fresh

/-- A world where a route from 0 to 1 was found, the graph was exchanged for one where 2 lies
between them, and a remap from 0 to 1 failed because there was no archive. -/
def exchanged : World :=
  let near : Graph := ⟨[⟨"a", false, []⟩, ⟨"b", false, [0]⟩]⟩
  let far : Graph := ⟨[⟨"a", false, []⟩, ⟨"c", false, [2]⟩, ⟨"b", false, [0]⟩]⟩
  let options : HopOptions :=
    { store := ⟨"s"⟩
      patchState := none
      mixin := { Mixin.Options.standard with enabled := false }
      ignoreMismatch := false
      classpath := ⟨none, [], []⟩ }
  let opened : World :=
    ⟨.ofCatalog (.ofTree near ⟨["a", "b"], []⟩) options, ⟨[], [], []⟩, []⟩
  let routed := ((Run.route (.direct 0 1)).run opened).2
  let other := { routed with
    remapper := routed.remapper.withCatalog (.ofTree far ⟨["a", "c", "b"], []⟩) }
  ((Remapper.remap (.direct 0 1) "i" "o").run other).2

theorem served_exchanged : ∃ log, Served exchanged log :=
  ⟨_, (((opened .new _ _ _).routed _).reconfigured .new).remapped _ _ _⟩

/-- What is answered and kept is the route of the new graph. -/
theorem answers_as_fresh_exchanged : ∃ log, Served exchanged log ∧
    (exchanged.remapper.graph.route (.direct 0 1)).toOption = some [2, 1] ∧
      ((Run.route (.direct 0 1)).run exchanged).1 =
        exchanged.remapper.graph.route (.direct 0 1) ∧
      exchanged.remapper.routes.keys.Nodup ∧ ∀ request path,
        exchanged.remapper.routes.get? request = some path ↔
          .route request (.ok path) ∈ log := by
  obtain ⟨log, served⟩ := served_exchanged
  obtain ⟨routes, -, kept, -⟩ := served.answers_as_fresh
  have between : (exchanged.remapper.graph.route (.direct 0 1)).toOption = some [2, 1] := by
    decide +kernel
  exact ⟨log, served, between, routes (.direct 0 1), kept⟩

end Served

end ArchiveRemap
