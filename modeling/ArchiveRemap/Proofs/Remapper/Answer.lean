import ArchiveRemap.Proofs.Remapper.Fresh
import ArchiveRemap.Proofs.Remapper.Run

/-!
Runs that tell what each hop on their way answers, those of the classpath among them. Telling
changes nothing: without what they tell, these runs are the runs that they follow.
-/

namespace ArchiveRemap

namespace World

/-- What a file holds, and nothing for a file that cannot be read. -/
def textAt (world : World) (path : String) : String :=
  (world.files.read path).toOption.getD ""

/-- A hop with the texts that it would work on. -/
def call (world : World) (kind : HopRole) (input : String) (source target : Nat) : HopCall :=
  let config := world.remapper.config
  { config
    kind
    input := world.textAt input
    archives := (config.derivedFrom kind).map world.textAt
    libraries := config.options.classpath.libraries.map world.textAt
    source
    target }

end World

/-- What a hop that ended well answered: the call, whether its artifact was there already, and
what the artifact holds. -/
structure Answer where
  call : HopCall
  cached : Bool
  content : String

/-- The artifact holds what the call writes if it runs afresh. -/
def Answer.Right (answer : Answer) : Prop := answer.call.fresh? = some answer.content

instance (answer : Answer) : Decidable answer.Right :=
  inferInstanceAs (Decidable (answer.call.fresh? = some answer.content))

/-- A run, and the answers of the hops on its way. -/
structure Traced (α : Type) where
  run : Run α
  answers : World → List Answer

namespace Traced

variable {α β : Type}

/-- A run without hops. -/
def silent (run : Run α) : Traced α := ⟨run, fun _ => []⟩

/-- A run after another one, which goes on from where that one has left the world. -/
def after (first : Traced α) (next : α → Traced β) : Traced β :=
  { run := first.run >>= fun value => (next value).run
    answers := fun world => first.answers world ++
      match first.run.run world with
      | (.ok value, later) => (next value).answers later
      | (.error _, _) => [] }

instance : Monad Traced where
  pure value := silent (pure value)
  bind := after

theorem answers_bind (first : Traced α) (next : α → Traced β) (world : World) :
    (first >>= next).answers world = first.answers world ++
      match first.run.run world with
      | (.ok value, later) => (next value).answers later
      | (.error _, _) => [] := rfl

theorem bind_run (first : Traced α) (next : α → Traced β) :
    (first >>= next).run = first.run >>= fun value => (next value).run := rfl

theorem answers_get (next : World → Traced β) (world : World) :
    (silent get >>= next).answers world = (next world).answers world := rfl

theorem get_run (next : World → Traced β) (world : World) :
    (silent get >>= next).run.run world = (next world).run.run world := rfl

/-- The same run for one value after the other. -/
def each (step : α → Traced β) : List α → Traced (List β)
  | [] => pure []
  | value :: rest => do
      let result ← step value
      let results ← each step rest
      pure (result :: results)

/-- A hop. The hops of its classpath come first, and only if it has to run. -/
def hop (kind : HopRole) (classpath : Traced (List String)) (input : String)
    (source target : Nat) : Traced HopResult where
  run := Remapper.makeHop kind classpath.run input source target
  answers world :=
    (match world.remapper.keyOf world.files kind input source target with
    | .error _ => []
    | .ok key =>
        match world.remapper.options.store.lookup? world.files key with
        | some _ => []
        | none => (after (silent (Run.table source target)) fun _ => classpath).answers world) ++
    match (Remapper.makeHop kind classpath.run input source target).run world with
    | (.ok report, later) =>
        [⟨world.call kind input source target, report.cached, later.textAt report.artifact⟩]
    | (.error _, _) => []

def hops (hop : String → Nat → Nat → Traced HopResult) (input : String) (source : Nat) :
    List Nat → Traced (List HopResult)
  | [] => pure []
  | target :: rest => do
      let report ← hop input source target
      let reports ← hops hop report.artifact target rest
      pure (report :: reports)

def classpathHop (options : HopOptions) : String → Nat → Nat → Traced HopResult :=
  hop .classpath (silent (pure options.classpath.libraries))

def deriveArchive (options : HopOptions) (base : Nat) (route : List Nat) (archive : String) :
    Traced String := do
  let reports ← hops (classpathHop options) archive base route
  pure (Remapper.lastArtifact archive reports)

/-- The classpath in a namespace, derived from archives that are in another one. -/
def classpathFrom (options : HopOptions) (target base : Nat) : Traced (List String) :=
  let classpath := options.classpath
  if base = target then pure (classpath.archives ++ classpath.libraries)
  else if classpath.archives.isEmpty then pure classpath.libraries
  else do
    let route ← silent (Run.route (.direct base target))
    let archives ← each (deriveArchive options base route) classpath.archives
    pure (archives ++ classpath.libraries)

def classpathAt (target : Nat) : Traced (List String) := do
  let world ← silent get
  let base ← silent (ExceptT.mk (pure world.remapper.baseOf))
  classpathFrom world.remapper.options target base

def inputHop (input : String) (source target : Nat) : Traced HopResult :=
  hop .input (classpathAt source) input source target

def remap (request : Request) (input output : String) : Traced RemapResult := do
  let route ← silent (Run.route request)
  let world ← silent get
  let reports ← hops inputHop input request.source route
  silent (Remapper.deliver request (Remapper.lastArtifact input reports) output)
  pure ⟨route.map world.remapper.graph.name, output, reports⟩

/-! What is left without the answers. -/

theorem run_each (step : α → Traced β) (values : List α) :
    (each step values).run = values.mapM fun value => (step value).run := by
  induction values with
  | nil => rfl
  | cons value rest ih =>
      rw [List.mapM_cons, ← ih]
      rfl

theorem run_hops (hop : String → Nat → Nat → Traced HopResult) (input : String) (source : Nat)
    (route : List Nat) :
    (hops hop input source route).run =
      Remapper.makeHops (fun input source target => (hop input source target).run) input source
        route := by
  induction route generalizing input source with
  | nil => rfl
  | cons target rest ih =>
      rw [Remapper.makeHops]
      simp only [← ih]
      rfl

theorem run_deriveArchive (options : HopOptions) (base : Nat) (route : List Nat)
    (archive : String) :
    (deriveArchive options base route archive).run =
      Remapper.deriveArchive options base route archive := by
  rw [Remapper.deriveArchive, deriveArchive, bind_run, run_hops]
  rfl

theorem run_classpathAt (target : Nat) :
    (classpathAt target).run = Remapper.classpathAt target := by
  rw [Remapper.classpathAt]
  apply bind_congr
  intro world
  apply bind_congr
  intro base
  -- The world and the namespace of the classpath are read in either; what is left is the branch.
  change Traced.run (ite _ _ _) = _
  split_ifs
  · rfl
  · rfl
  · apply bind_congr
    intro route
    simp only [bind_run, run_each, run_deriveArchive]
    rfl

theorem run_inputHop (input : String) (source target : Nat) :
    (inputHop input source target).run = Remapper.inputHop input source target := by
  rw [Remapper.inputHop, ← run_classpathAt]
  rfl

/-- The run that tells is the run that is told about. -/
theorem run_remap (request : Request) (input output : String) :
    (remap request input output).run = Remapper.remap request input output := by
  rw [Remapper.remap]
  apply bind_congr
  intro route
  apply bind_congr
  intro world
  simp only [bind_run, run_hops, run_inputHop]
  rfl

end Traced

end ArchiveRemap
