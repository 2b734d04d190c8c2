import ArchiveRemap.Mixin.Refmap
import ArchiveRemap.Mixin.Rule
import ArchiveRemap.Symbol.ClassName
import ArchiveRemap.Text.Case

/-!
What the annotations of a mixin class ask for, as tasks for later. Nothing is resolved
here. A task is soft if its result goes into a reference map and hard if it renames the
annotated member; string targets of the mixin itself come before everything else.
-/

namespace ArchiveRemap.Mixin

inductive Task where
  /-- String targets of the mixin. -/
  | mixinTargets (names : List String)
  /-- Methods that an injector names. -/
  | methodTargets (label : String) (targets : List String)
  /-- The target and the class arguments of an injection point. -/
  | injectionPoint (label : String) (target : Option String) (arguments : List String)
  /-- Candidate field names, most likely first, and the accessor's descriptor. -/
  | accessor (names : List String) (desc : String)
  | invoker (names : List String) (desc : String)
  /-- A member that stands for one of the target; its name may carry a marker in front. -/
  | shadow (kind : MemberKind) (name desc marker : String)
  | overwrite (name desc : String)
  deriving DecidableEq, Repr

namespace Task

/-- Tasks that have to run before all others of their class. -/
def runsFirst : Task → Bool
  | .mixinTargets _ => true
  | _ => false

def isHard : Task → Bool
  | .shadow .. => true
  | .overwrite .. => true
  | _ => false

end Task

/-- A mixin class between collection and resolution. -/
structure MixinWork where
  className : String
  targets : List String
  tasks : List Task
  entries : ClassEntries

/-- Split tasks by a test; the ones that pass come in running order. -/
def takeTasks (wanted : Task → Bool) (tasks : List Task) : List Task × List Task :=
  let taken := tasks.filter wanted
  (taken.filter Task.runsFirst ++ taken.filter (fun task => !task.runsFirst),
    tasks.filter fun task => !wanted task)

/-! Names that accessors and invokers stand for. -/

def written? (note : AnnotationNode) : Option String :=
  (note.string? "value").filter fun value => !value.isEmpty

/-- A method name without the first of some verbs that it starts with, unless nothing is
left of it. -/
def stem (verbs : List String) (method : String) : String :=
  match verbs.findSome? fun verb => Text.dropHead? verb.toList method.toList with
  | some (c :: rest) => String.ofList (c :: rest)
  | _ => method

/-- A name in its two likely spellings, the one with a small initial first. -/
def spellings (name : String) : List String :=
  let small := String.ofList (Text.smallInitial name.toList)
  if small = name then [small] else [small, name]

def accessedNames (note : AnnotationNode) (method : String) : List String :=
  match written? note with
  | some value => [value]
  | none => spellings (stem ["get", "is", "set"] method)

/-- Whether a method is named as one that makes an object. -/
def namesConstructor (method : String) : Bool :=
  ["new", "create"].any fun verb =>
    match Text.dropHead? verb.toList method.toList with
    | some (_ :: _) => true
    | _ => false

def invokedNames (note : AnnotationNode) (method : String) : List String :=
  match written? note with
  | some value => [value]
  | none =>
      if namesConstructor method then ["<init>"]
      else spellings (stem ["call", "invoke"] method)

def shadowMarker (note : AnnotationNode) : String :=
  (note.string? "prefix").getD "shadow$"

/-! Tasks of single annotations. `remap` is the truth value that holds where the
annotation stands. -/

def methodTargetTasks (name : String) (note : AnnotationNode) : List Task :=
  match note.strings "method" with
  | [] => []
  | targets => [.methodTargets name targets]

def isClassArgument (argument : String) : Bool :=
  Text.startsWith "class=".toList argument.toList

def injectionPointTasks (name : String) (remap : Bool) (point : AnnotationNode) : List Task :=
  if point.remap remap then
    match point.string? "target", (point.strings "args").filter isClassArgument with
    | none, [] => []
    | target, arguments => [.injectionPoint name target arguments]
  else []

def sliceTasks (remap : Bool) (slice : AnnotationNode) : List Task :=
  (slice.annotations "from" ++ slice.annotations "to").flatMap
    (injectionPointTasks "@Slice" (slice.remap remap))

def fieldTasks (rule : Rule) (note : AnnotationNode) (member : MemberNode) (remap : Bool) :
    List Task :=
  match rule.handler with
  | .shadow =>
      if remap then [.shadow .field member.name member.desc (shadowMarker note)] else []
  | _ => []

def methodTasks (rule : Rule) (note : AnnotationNode) (member : MemberNode) (remap : Bool) :
    List Task :=
  match rule.handler with
  | .injector =>
      (if remap then methodTargetTasks rule.name note else []) ++
        (note.annotations "at").flatMap (injectionPointTasks "@At" remap) ++
        (note.annotations "slice").flatMap (sliceTasks remap)
  | .methodTarget => if remap then methodTargetTasks rule.name note else []
  | .accessor =>
      if remap then [.accessor (accessedNames note member.name) member.desc] else []
  | .invoker =>
      if remap then [.invoker (invokedNames note member.name) member.desc] else []
  | .shadow =>
      if remap then [.shadow .method member.name member.desc (shadowMarker note)] else []
  | .overwrite => if remap then [.overwrite member.name member.desc] else []
  | .mixinTargets => []

/-- The tasks of one member, annotation by annotation. -/
def memberTasks (registry : Registry) (site : Site)
    (tasks : Rule → AnnotationNode → MemberNode → Bool → List Task) (remap : Bool)
    (member : MemberNode) : List Task :=
  member.annotations.flatMap fun note =>
    match registry.lookup? site note with
    | some rule => tasks rule note member (note.remap remap)
    | none => []

/-- The first annotation that makes a class a mixin. -/
def mixinNote? (registry : Registry) (node : ClassNode) : Option AnnotationNode :=
  node.annotations.find? fun note =>
    match registry.lookup? .onClass note with
    | some rule => rule.handler = .mixinTargets
    | none => false

/-- The classes that a mixin names by class literals. -/
def literalTargets (mixin : AnnotationNode) : List String :=
  (mixin.elements "value").filterMap fun element =>
    element.classLiteral?.bind Descriptor.objectType?

/-- The context of a mixin class, nothing for any other class. String targets that are not
to be renamed are targets as they stand. -/
def contextOf? (registry : Registry) (node : ClassNode) : Option MixinWork := do
  let mixin ← mixinNote? registry node
  let remap := mixin.remap true
  let names := mixin.strings "targets"
  let members :=
    node.fields.flatMap (memberTasks registry .onField fieldTasks remap) ++
      node.methods.flatMap (memberTasks registry .onMethod methodTasks remap)
  some
    { className := node.name
      targets := literalTargets mixin ++ if remap then [] else names.map ClassName.ofDotted
      tasks := (if remap && !names.isEmpty then [.mixinTargets names] else []) ++ members
      entries := .empty }

end ArchiveRemap.Mixin
