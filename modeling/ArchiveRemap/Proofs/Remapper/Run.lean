import ArchiveRemap.Remapper.Remap
import Mathlib.Tactic.SplitIfs

/-!
Runs taken apart into their steps, each with the world that it starts in.
-/

namespace ArchiveRemap

namespace Run

variable {α β : Type}

theorem run_bind (run : Run α) (next : α → Run β) (world : World) :
    (run >>= next).run world = match run.run world with
      | (.ok value, later) => (next value).run later
      | (.error fault, later) => (.error fault, later) := by
  have threaded (first : StateM World (Except RequestError α))
      (second : Except RequestError α → StateM World (Except RequestError β)) :
      (first >>= second) world = second (first world).1 (first world).2 := rfl
  rw [ExceptT.run_bind, threaded]
  rcases run.run world with ⟨_ | _, _⟩ <;> rfl

theorem run_get (world : World) : (get : Run World).run world = (.ok world, world) := rfl

theorem run_mk_pure (result : Except RequestError α) (world : World) :
    (ExceptT.mk (pure result) : Run α).run world = (result, world) := rfl

theorem run_route (request : Request) (world : World) :
    (route request).run world =
      ((world.remapper.routes.route world.remapper.graph request).1,
        { world with remapper := { world.remapper with
          routes := (world.remapper.routes.route world.remapper.graph request).2 } }) := rfl

theorem run_table (source target : Nat) (world : World) :
    (table source target).run world =
      ((world.remapper.catalog.table source target).1,
        { world with remapper := { world.remapper with
          catalog := (world.remapper.catalog.table source target).2 } }) := rfl

theorem run_reading (source target : Nat) (read : Remapper → FileTree → Except ArchiveError α)
    (world : World) :
    (reading source target read).run world =
      (failed world.remapper.graph source target (read world.remapper world.files), world) := rfl

theorem run_changing (source target : Nat)
    (change : Remapper → FileTree → Except ArchiveError α × List Notice × FileTree)
    (world : World) :
    (changing source target change).run world =
      (failed world.remapper.graph source target (change world.remapper world.files).1,
        { world with
          files := (change world.remapper world.files).2.2
          notices := world.notices ++ (change world.remapper world.files).2.1 }) := rfl

end Run

namespace Remapper

variable {kind : HopRole} {input : String} {source target : Nat}

/-- A hop as one step after the other. -/
theorem run_makeHop (classpath : Run (List String)) (world : World) :
    (makeHop kind classpath input source target).run world =
      match world.remapper.keyOf world.files kind input source target with
      | .error cause => (Run.failed world.remapper.graph source target (.error cause), world)
      | .ok key =>
          match world.remapper.options.store.lookup? world.files key with
          | some path =>
              ((Run.failed world.remapper.graph source target
                (storedRefmaps world.files path)).map fun refmaps =>
                  ⟨key.source, key.target, path, true, [], refmaps⟩, world)
          | none =>
              match (Run.table source target).run world with
              | (.error fault, later) => (.error fault, later)
              | (.ok table, later) =>
                  match classpath.run later with
                  | (.error fault, last) => (.error fault, last)
                  | (.ok paths, last) =>
                      (Run.changing source target (publishHop key table paths input)).run last := by
  rw [makeHop, Run.run_bind, Run.run_reading]
  cases world.remapper.keyOf world.files kind input source target with
  | error cause => rfl
  | ok key =>
      simp only [Run.failed]
      rw [Run.run_bind, Run.run_reading]
      simp only [Run.failed]
      cases world.remapper.options.store.lookup? world.files key with
      | some path =>
          simp only []
          rw [Run.run_bind, Run.run_reading]
          cases storedRefmaps world.files path <;> rfl
      | none =>
          simp only []
          rw [Run.run_bind]
          rcases (Run.table source target).run world with ⟨_ | table, later⟩
          · rfl
          · simp only []
            rw [Run.run_bind]
            rcases classpath.run later with ⟨_ | paths, last⟩ <;> rfl

theorem run_makeHops_cons (hop : String → Nat → Nat → Run HopResult) (rest : List Nat)
    (world : World) :
    (makeHops hop input source (target :: rest)).run world =
      match (hop input source target).run world with
      | (.error fault, later) => (.error fault, later)
      | (.ok report, later) =>
          match (makeHops hop report.artifact target rest).run later with
          | (.error fault, last) => (.error fault, last)
          | (.ok reports, last) => (.ok (report :: reports), last) := by
  rw [makeHops, Run.run_bind]
  rcases (hop input source target).run world with ⟨_ | report, later⟩
  · rfl
  · simp only []
    rw [Run.run_bind]
    rcases (makeHops hop report.artifact target rest).run later with ⟨_ | reports, last⟩ <;> rfl

theorem lastArtifact_cons (report : HopResult) (reports : List HopResult) :
    lastArtifact input (report :: reports) = lastArtifact report.artifact reports := by
  cases reports with
  | nil => rfl
  | cons next more =>
      simp only [lastArtifact, List.getLast?_cons_cons]
      rfl

theorem run_deliver (request : Request) (file output : String) (world : World) :
    (deliver request file output).run world =
      (Run.failed world.remapper.graph request.source request.target
        (copyFile world.files file output).1,
        { world with
          files := (copyFile world.files file output).2
          notices := world.notices ++ [] }) := by
  rw [deliver, Run.run_changing]

/-- Bring one archive of the classpath into another namespace. -/
def deriveArchive (options : HopOptions) (base : Nat) (route : List Nat) (archive : String) :
    Run String := do
  let reports ← makeHops (classpathHop options) archive base route
  pure (lastArtifact archive reports)

/-- The namespace that the archives of the classpath are in. -/
def baseOf (remapper : Remapper) : Except RequestError Nat :=
  match remapper.options.classpath.namespaceName with
  | some name => remapper.graph.require name
  | none => .ok remapper.graph.root

theorem run_classpathAt (world : World) :
    (classpathAt target).run world =
      match world.remapper.baseOf with
      | .error fault => (.error fault, world)
      | .ok base =>
          if base = target then
            (.ok (world.remapper.options.classpath.archives ++
              world.remapper.options.classpath.libraries), world)
          else if world.remapper.options.classpath.archives.isEmpty then
            (.ok world.remapper.options.classpath.libraries, world)
          else
            match (Run.route (.direct base target)).run world with
            | (.error fault, later) => (.error fault, later)
            | (.ok route, later) =>
                match (world.remapper.options.classpath.archives.mapM
                    (deriveArchive world.remapper.options base route)).run later with
                | (.error fault, last) => (.error fault, last)
                | (.ok archives, last) =>
                    (.ok (archives ++ world.remapper.options.classpath.libraries), last) := by
  -- Finding the base changes nothing, so it can be taken out of the run as a case.
  have based (rest : Nat → Run (List String)) :
      ((ExceptT.mk (pure (match world.remapper.options.classpath.namespaceName with
        | some name => world.remapper.graph.require name
        | none => .ok world.remapper.graph.root)) : Run Nat) >>= rest).run world =
          match world.remapper.baseOf with
          | .error fault => (.error fault, world)
          | .ok base => (rest base).run world := by
    rw [Run.run_bind, Run.run_mk_pure]
    unfold baseOf
    cases world.remapper.options.classpath.namespaceName with
    | none => rfl
    | some name =>
        simp only []
        cases world.remapper.graph.require name <;> rfl
  rw [classpathAt, Run.run_bind, Run.run_get]
  refine (based _).trans ?_
  cases world.remapper.baseOf with
  | error fault => rfl
  | ok base =>
      simp only []
      split_ifs
      · rfl
      · rfl
      · rw [Run.run_bind]
        rcases (Run.route (.direct base target)).run world with ⟨_ | route, later⟩
        · rfl
        · simp only []
          rw [Run.run_bind]
          have folded : (fun archive => do
              let reports ← makeHops (classpathHop world.remapper.options) archive base route
              pure (lastArtifact archive reports)) =
                deriveArchive world.remapper.options base route := rfl
          rw [folded]
          rcases (world.remapper.options.classpath.archives.mapM
            (deriveArchive world.remapper.options base route)).run later with
              ⟨_ | archives, last⟩ <;> rfl

/-- A remap as one step after the other. -/
theorem run_remap (request : Request) (output : String) (world : World) :
    (remap request input output).run world =
      match (Run.route request).run world with
      | (.error fault, later) => (.error fault, later)
      | (.ok route, later) =>
          match (makeHops inputHop input request.source route).run later with
          | (.error fault, last) => (.error fault, last)
          | (.ok hops, last) =>
              match (deliver request (lastArtifact input hops) output).run last with
              | (.error fault, after) => (.error fault, after)
              | (.ok _, after) =>
                  (.ok ⟨route.map later.remapper.graph.name, output, hops⟩, after) := by
  rw [remap, Run.run_bind]
  rcases (Run.route request).run world with ⟨_ | route, later⟩
  · rfl
  · simp only []
    rw [Run.run_bind, Run.run_get]
    simp only []
    rw [Run.run_bind]
    rcases (makeHops inputHop input request.source route).run later with ⟨_ | hops, last⟩
    · rfl
    · simp only []
      rw [Run.run_bind]
      rcases (deliver request (lastArtifact input hops) output).run last with ⟨_ | _, after⟩ <;>
        rfl

/-- What a remap that ends well has done. -/
theorem remap_eq_ok {request : Request} {output : String} {world after : World}
    {result : RemapResult} (ran : (remap request input output).run world = (.ok result, after)) :
    ∃ route later last files, (Run.route request).run world = (.ok route, later) ∧
      (makeHops inputHop input request.source route).run later = (.ok result.hops, last) ∧
      copyFile last.files (lastArtifact input result.hops) output = (.ok (), files) ∧
      result = ⟨route.map later.remapper.graph.name, output, result.hops⟩ ∧
      after = { last with files } := by
  rw [run_remap] at ran
  rcases routed : (Run.route request).run world with ⟨fault | route, later⟩
  · rw [routed] at ran
    cases ran
  rw [routed] at ran
  simp only [] at ran
  rcases hopped : (makeHops inputHop input request.source route).run later with
    ⟨fault | hops, last⟩
  · rw [hopped] at ran
    cases ran
  rw [hopped] at ran
  simp only [run_deliver, List.append_nil] at ran
  rcases delivered : copyFile last.files (lastArtifact input hops) output with
    ⟨fault | done, files⟩
  · rw [delivered] at ran
    cases ran
  rw [delivered] at ran
  cases ran
  exact ⟨route, later, last, files, rfl, hopped, delivered, rfl, rfl⟩

end Remapper

end ArchiveRemap
