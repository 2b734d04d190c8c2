import ArchiveRemap.Proofs.Mixin.KnownMember

/-!
Classes and descriptors that are known from an earlier hop. A target that is a class, and a
class argument, have the reference of the first hop that resolved them in every later hop: it
is written again as it is, and the later tables do not touch it. For a descriptor a later hop
writes nothing.
-/

namespace ArchiveRemap.Mixin

/-- The symbols of injection points that name classes: a target that is a class or a
descriptor, and a class argument. -/
inductive ClassForm where
  | target
  | descriptor
  | argument
  deriving DecidableEq, Repr

namespace ClassForm

/-- The texts of each form. -/
def Fits : ClassForm → String → Prop
  | .target, text => PointTarget.ofText text = .other
  | .descriptor, text => PointTarget.ofText text = .descriptor
  | .argument, _ => True

/-- The symbol that has a text as its key. -/
def symbol (label text : String) : ClassForm → Symbol
  | .target => .pointTarget label text
  | .descriptor => .pointTarget label text
  | .argument => .classArgument label ("class=" ++ text)

/-- The hop has no class for the text, or for no class in it. -/
def Unmatched (scope : Scope) (text : String) : ClassForm → Prop
  | .target => scope.renamer.knows (Scope.pointClass text).1 = false
  | .descriptor => scope.renamer.mapDesc text = text
  | .argument => scope.renamer.knows (ClassName.ofDotted text) = false

instance (text : String) : (form : ClassForm) → Decidable (form.Fits text)
  | .target => inferInstanceAs (Decidable (_ = _))
  | .descriptor => inferInstanceAs (Decidable (_ = _))
  | .argument => inferInstanceAs (Decidable True)

instance (scope : Scope) (text : String) :
    (form : ClassForm) → Decidable (form.Unmatched scope text)
  | .target => inferInstanceAs (Decidable (_ = _))
  | .descriptor => inferInstanceAs (Decidable (_ = _))
  | .argument => inferInstanceAs (Decidable (_ = _))

/-- A text through the table of a hop. A class keeps the `L` and `;` around it. -/
def translate (renamer : Renamer) (text : String) : ClassForm → String
  | .target =>
      let (name, wrapped) := Scope.pointClass text
      let mapped := renamer.mapClass name
      if wrapped then "L" ++ mapped ++ ";" else mapped
  | .descriptor => renamer.mapDesc text
  | .argument => renamer.mapClass (ClassName.ofDotted text)

/-- A text through the tables of several hops. -/
def translateAll (form : ClassForm) (hops : List Scope) (text : String) : String :=
  hops.foldl (fun value scope => form.translate scope.renamer value) text

end ClassForm

namespace Scope

/-- The reference that a hop writes under a key for a symbol. -/
def written? (scope : Scope) (symbol : Symbol) (key : String) : Option String :=
  ((scope.symbolFindings symbol).foldl Finding.addEntry .empty).get? key

variable {scope : Scope}

theorem get?_addEntry (key value : String) :
    (Finding.addEntry .empty (.entry key value)).get? key = some value := by
  simp [Finding.addEntry, Dictionary.get?_insert]

theorem dropHead?_class (text : String) :
    Text.dropHead? "class=".toList ("class=" ++ text).toList = some text.toList := by
  rw [Text.dropHead?_eq_some_iff, String.toList_append]

/-! What is written for each form. -/

theorem written?_target (label : String) {text : String}
    (shape : PointTarget.ofText text = .other) :
    scope.written? (.pointTarget label text) text =
      if ClassName.isInternal (pointClass text).1 && scope.renamer.knows (pointClass text).1 then
        some (ClassForm.target.translate scope.renamer text)
      else scope.known? text := by
  rw [written?, symbolFindings, pointFindings, shape]
  dsimp only [List.foldl_cons, List.foldl_nil, pointClassFinding]
  split
  · exact get?_addEntry text _
  · cases scope.known? text with
    | some value => exact get?_addEntry text value
    | none => rfl

theorem written?_descriptor (label : String) {text : String}
    (shape : PointTarget.ofText text = .descriptor) :
    scope.written? (.pointTarget label text) text =
      if scope.renamer.mapDesc text = text then none else some (scope.renamer.mapDesc text) := by
  rw [written?, symbolFindings, pointFindings, shape]
  dsimp only
  split
  · exact Dictionary.get?_empty text
  · exact get?_addEntry text _

theorem written?_argument (label text : String) :
    scope.written? (.classArgument label ("class=" ++ text)) text =
      if scope.renamer.knows (ClassName.ofDotted text) then
        some (scope.renamer.mapClass (ClassName.ofDotted text))
      else scope.known? text := by
  rw [written?, symbolFindings, classArgumentFindings, dropHead?_class]
  dsimp only
  rw [String.ofList_toList]
  split
  · exact get?_addEntry text _
  · cases scope.known? text with
    | some value => exact get?_addEntry text value
    | none => rfl

/-- A hop that has the class writes the class as its table renames it. -/
theorem written?_of_matched {label text : String} (form : ClassForm) (fits : form.Fits text)
    (named : form = .target → ClassName.isInternal (pointClass text).1 = true)
    (matched : ¬form.Unmatched scope text) :
    scope.written? (form.symbol label text) text = some (form.translate scope.renamer text) := by
  cases form with
  | target =>
      have known : scope.renamer.knows (pointClass text).1 = true := eq_true_of_ne_false matched
      exact (written?_target label fits).trans (if_pos (by rw [named rfl, known, Bool.and_self]))
  | descriptor => exact (written?_descriptor label fits).trans (if_neg matched)
  | argument =>
      exact (written?_argument label text).trans (if_pos (eq_true_of_ne_false matched))

/-- A hop that does not have the class writes what it knows, and nothing for a descriptor. -/
theorem written?_of_unmatched {label text : String} {form : ClassForm} (fits : form.Fits text)
    (unmatched : form.Unmatched scope text) :
    scope.written? (form.symbol label text) text =
      if form = .descriptor then none else scope.known? text := by
  cases form with
  | target =>
      have unknown : scope.renamer.knows (pointClass text).1 = false := unmatched
      exact (written?_target label fits).trans (if_neg (by simp [unknown]))
  | descriptor => exact (written?_descriptor label fits).trans (if_pos unmatched)
  | argument =>
      have unknown : scope.renamer.knows (ClassName.ofDotted text) = false := unmatched
      exact (written?_argument label text).trans (if_neg (by simp [unknown]))

end Scope

/-- Hops one after the other. Each knows under a key what the hop before wrote for the
symbol; the last of them leaves the reference at the end. -/
inductive Carries (symbol : Symbol) (key : String) :
    Option String → List Scope → Option String → Prop where
  | nil (value : Option String) : Carries symbol key value [] value
  | cons {scope : Scope} {rest : List Scope} {last : Option String}
      (after : Carries symbol key (scope.written? symbol key) rest last) :
      Carries symbol key (scope.known? key) (scope :: rest) last

namespace Carries

open ClassForm Scope

variable {form : ClassForm} {label text : String} {before last : Option String}
  {hops : List Scope}

/-- Hops without the class hand on what the first of them knew. -/
theorem last_of_unmatched (fits : form.Fits text)
    (run : Carries (form.symbol label text) text before hops last)
    (unmatched : ∀ scope ∈ hops, form.Unmatched scope text) :
    last = if form = .descriptor ∧ hops ≠ [] then none else before := by
  -- What the first hop knew is what the rest of the run starts from, or nothing.
  induction run with
  | nil value => simp
  | @cons scope rest last after ih =>
      rw [ih fun later member => unmatched later (List.mem_cons_of_mem _ member),
        Scope.written?_of_unmatched fits (unmatched scope List.mem_cons_self)]
      by_cases descriptor : form = .descriptor <;> simp [descriptor]

/-- A class or a descriptor that some hop resolved, through later hops that have no class for
the text. At the end the reference stands as it was first written; that of a descriptor is
gone after any hop. So the reference at the end is the first one through all later tables
exactly when these leave it as it is and, for a descriptor, when there is no later hop. -/
theorem class_reference_carried_iff {first : String} (fits : form.Fits text)
    (run : Carries (form.symbol label text) text (some first) hops last)
    (unmatched : ∀ scope ∈ hops, form.Unmatched scope text) :
    (last = if form = .descriptor ∧ hops ≠ [] then none else some first) ∧
      (last = some (form.translateAll hops first) ↔
        form.translateAll hops first = first ∧ (form = .descriptor → hops = [])) := by
  have handed := last_of_unmatched fits run unmatched
  refine ⟨handed, ?_⟩
  rw [handed]
  split
  · rename_i lost
    exact iff_of_false nofun fun kept => lost.2 (kept.2 lost.1)
  · rename_i kept
    rw [Option.some_inj, eq_comm]
    refine (and_iff_left fun descriptor => ?_).symm
    exact Classical.byContradiction fun later => kept ⟨descriptor, later⟩

/-- A run of hops of which only the first has the class: the reference at the end comes from
the table of that hop alone. -/
theorem last_of_matched {start : Scope} (fits : form.Fits text)
    (named : form = .target → ClassName.isInternal (Scope.pointClass text).1 = true)
    (run : Carries (form.symbol label text) text before (start :: hops) last)
    (matched : ¬form.Unmatched start text)
    (unmatched : ∀ scope ∈ hops, form.Unmatched scope text) :
    last = if form = .descriptor ∧ hops ≠ [] then none
      else some (form.translate start.renamer text) := by
  cases run with
  | cons after =>
      rw [Scope.written?_of_matched form fits named matched] at after
      exact last_of_unmatched fits after unmatched

/-! Two hops that find nothing for the text, after one that gave the class its last name. -/

def settledScope : Scope :=
  ⟨"m/M", ["A"], some (.ofList [("La;", "LA;")]),
    pairRenamer ("A", "A") ("y", "count") ("e", "tick") ("B", "Second"), false⟩

theorem class_reference_carried_iff_settled :
    (some "LA;" = if ClassForm.target = .descriptor ∧ [settledScope, settledScope] ≠ [] then none
        else some "LA;") ∧
      (some "LA;" = some (ClassForm.target.translateAll [settledScope, settledScope] "LA;") ↔
        ClassForm.target.translateAll [settledScope, settledScope] "LA;" = "LA;" ∧
          (ClassForm.target = .descriptor → [settledScope, settledScope] = [])) := by
  have fits : ClassForm.target.Fits "La;" := by decide
  have unmatched : ∀ scope ∈ [settledScope, settledScope],
      ClassForm.target.Unmatched scope "La;" := by decide
  have known : settledScope.known? "La;" = some "LA;" := rfl
  have kept : settledScope.written? (ClassForm.target.symbol "@At" "La;") "La;" = some "LA;" := by
    decide +kernel
  have run : Carries (ClassForm.target.symbol "@At" "La;") "La;" (some "LA;")
      [settledScope, settledScope] (some "LA;") := by
    rw [← known]
    refine .cons ?_
    rw [kept, ← known]
    refine .cons ?_
    rw [kept, ← known]
    exact .nil _
  exact class_reference_carried_iff fits run unmatched

/-- Where the next table renames the class again, the reference stays behind. The descriptor
has none in the next hop. -/
theorem class_reference_stays_behind :
    ((firstScope ["a"]).pointFindings "@At" "La;" = [.entry "La;" "LA;"] ∧
      (secondScope ["A"] [("La;", "LA;")]).pointFindings "@At" "LA;" =
        [.entry "LA;" "LFirst;"] ∧
      (secondScope ["A"] [("La;", "LA;")]).pointFindings "@At" "La;" = [.entry "La;" "LA;"]) ∧
    ((firstScope ["a"]).pointFindings "@At" "(La;)V" = [.entry "(La;)V" "(LA;)V"] ∧
      (secondScope ["A"] [("(La;)V", "(LA;)V")]).pointFindings "@At" "(LA;)V" =
        [.entry "(LA;)V" "(LFirst;)V"] ∧
      (secondScope ["A"] [("(La;)V", "(LA;)V")]).pointFindings "@At" "(La;)V" = []) ∧
    ((firstScope ["a"]).classArgumentFindings "@At" "class=a" = [.entry "a" "A"] ∧
      (secondScope ["A"] [("a", "A")]).classArgumentFindings "@At" "class=A" =
        [.entry "A" "First"] ∧
      (secondScope ["A"] [("a", "A")]).classArgumentFindings "@At" "class=a" =
        [.entry "a" "A"]) := by
  decide +kernel

end Carries

end ArchiveRemap.Mixin
