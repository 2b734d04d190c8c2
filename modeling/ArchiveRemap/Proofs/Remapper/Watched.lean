import ArchiveRemap.Proofs.Remapper.Run

/-!
Runs that tell which routes and tables they look up, and what they are answered. Looking on
changes nothing: without what they tell, these runs are the runs that they follow.
-/

namespace ArchiveRemap

/-- A look-up with its answer. -/
inductive Lookup where
  | route (request : Request) (answer : Except RequestError (List Nat))
  | table (source target : Nat) (answer : Except RequestError RenameTable)

/-- The answer is what a graph and its mapping data give, whatever is remembered. -/
def Lookup.Right (graph : Graph) (tree : Tiny.Tree) : Lookup → Prop
  | .route request answer => answer = graph.route request
  | .table source target answer => answer = makeTable graph tree source target

/-- A run, and the look-ups on its way. -/
structure Watched (α : Type) where
  run : Run α
  lookups : World → List Lookup

namespace Watched

variable {α β : Type}

/-- A run that looks nothing up. -/
def plain (run : Run α) : Watched α := ⟨run, fun _ => []⟩

def after (first : Watched α) (next : α → Watched β) : Watched β :=
  { run := first.run >>= fun value => (next value).run
    lookups := fun world => first.lookups world ++
      match first.run.run world with
      | (.ok value, later) => (next value).lookups later
      | (.error _, _) => [] }

instance : Monad Watched where
  pure value := plain (pure value)
  bind := after

def route (request : Request) : Watched (List Nat) :=
  ⟨Run.route request, fun world => [.route request ((Run.route request).run world).1]⟩

def table (source target : Nat) : Watched RenameTable :=
  ⟨Run.table source target, fun world =>
    [.table source target ((Run.table source target).run world).1]⟩

theorem bind_run (first : Watched α) (next : α → Watched β) :
    (first >>= next).run = first.run >>= fun value => (next value).run := rfl

theorem lookups_bind (first : Watched α) (next : α → Watched β) (world : World) :
    (first >>= next).lookups world = first.lookups world ++
      match first.run.run world with
      | (.ok value, later) => (next value).lookups later
      | (.error _, _) => [] := rfl

/-! The runs of a remapper, look-up by look-up. -/

def hop (kind : HopRole) (classpath : Watched (List String)) (input : String)
    (source target : Nat) : Watched HopResult := do
  let key ← plain (Run.reading source target fun remapper files =>
    remapper.keyOf files kind input source target)
  let found ← plain (Run.reading source target fun remapper files =>
    .ok (remapper.options.store.lookup? files key))
  match found with
  | some path => plain do
      let refmaps ← Run.reading source target fun _ files => Remapper.storedRefmaps files path
      pure ⟨key.source, key.target, path, true, [], refmaps⟩
  | none => do
      let table ← table source target
      let classpath ← classpath
      plain (Run.changing source target (Remapper.publishHop key table classpath input))

def hops (hop : String → Nat → Nat → Watched HopResult) (input : String) (source : Nat) :
    List Nat → Watched (List HopResult)
  | [] => pure []
  | target :: rest => do
      let report ← hop input source target
      let reports ← hops hop report.artifact target rest
      pure (report :: reports)

/-- The same run for one value after the other. -/
def each (step : α → Watched β) : List α → Watched (List β)
  | [] => pure []
  | value :: rest => do
      let result ← step value
      let results ← each step rest
      pure (result :: results)

def deriveArchive (options : HopOptions) (base : Nat) (route : List Nat) (archive : String) :
    Watched String := do
  let reports ← hops (hop .classpath (plain (pure options.classpath.libraries))) archive base route
  pure (Remapper.lastArtifact archive reports)

/-- The classpath in a namespace, derived from archives that are in another one. -/
def classpathFrom (options : HopOptions) (target base : Nat) : Watched (List String) :=
  let classpath := options.classpath
  if base = target then plain (pure (classpath.archives ++ classpath.libraries))
  else if classpath.archives.isEmpty then plain (pure classpath.libraries)
  else do
    let route ← route (.direct base target)
    let archives ← each (deriveArchive options base route) classpath.archives
    pure (archives ++ classpath.libraries)

def classpathAt (target : Nat) : Watched (List String) := do
  let world ← plain get
  let base ← plain (ExceptT.mk (pure world.remapper.baseOf))
  classpathFrom world.remapper.options target base

def inputHop (input : String) (source target : Nat) : Watched HopResult :=
  hop .input (classpathAt source) input source target

def remap (request : Request) (input output : String) : Watched RemapResult := do
  let path ← route request
  let world ← plain get
  let reports ← hops inputHop input request.source path
  plain do
    Remapper.deliver request (Remapper.lastArtifact input reports) output
    pure ⟨path.map world.remapper.graph.name, output, reports⟩

/-! What is left when nobody looks on. -/

theorem run_hop (kind : HopRole) (classpath : Watched (List String)) (input : String)
    (source target : Nat) :
    (hop kind classpath input source target).run =
      Remapper.makeHop kind classpath.run input source target := by
  apply bind_congr
  intro key
  apply bind_congr
  intro found
  cases found <;> rfl

theorem run_hops (hop : String → Nat → Nat → Watched HopResult) (input : String) (source : Nat)
    (route : List Nat) :
    (hops hop input source route).run =
      Remapper.makeHops (fun input source target => (hop input source target).run) input source
        route := by
  induction route generalizing input source with
  | nil => rfl
  | cons target rest ih =>
      apply bind_congr
      intro report
      rw [bind_run, ih]
      rfl

theorem run_each (step : α → Watched β) (values : List α) :
    (each step values).run = values.mapM fun value => (step value).run := by
  induction values with
  | nil => rfl
  | cons value rest ih =>
      rw [List.mapM_cons, ← ih]
      rfl

theorem run_deriveArchive (options : HopOptions) (base : Nat) (route : List Nat)
    (archive : String) :
    (deriveArchive options base route archive).run =
      Remapper.deriveArchive options base route archive := by
  rw [deriveArchive, bind_run, run_hops]
  simp only [run_hop]
  rfl

theorem run_classpathAt (target : Nat) :
    (classpathAt target).run = Remapper.classpathAt target := by
  apply bind_congr
  intro world
  apply bind_congr
  intro base
  -- The world and the base are read by either; the branches are left.
  change Watched.run (ite _ _ _) = _
  split_ifs
  · rfl
  · rfl
  · apply bind_congr
    intro route
    simp only [bind_run, run_each, run_deriveArchive]
    rfl

theorem run_inputHop (input : String) (source target : Nat) :
    (inputHop input source target).run = Remapper.inputHop input source target := by
  rw [inputHop, run_hop, run_classpathAt]
  rfl

/-- The run that is watched is the run itself. -/
theorem run_remap (request : Request) (input output : String) :
    (remap request input output).run = Remapper.remap request input output := by
  apply bind_congr
  intro path
  apply bind_congr
  intro world
  rw [bind_run, run_hops]
  simp only [run_inputHop]
  rfl

end Watched

end ArchiveRemap
