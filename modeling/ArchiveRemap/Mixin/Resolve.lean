import ArchiveRemap.Hierarchy.Renamer
import ArchiveRemap.Mixin.PointTarget
import ArchiveRemap.Mixin.Task
import ArchiveRemap.Notice
import ArchiveRemap.Symbol.Reference

/-!
Resolving the symbols of a mixin class. Each symbol gives findings: references for the
reference map, new names of members, and warnings. A symbol is looked up in the classes of
the hop first. One that is not found there may be known from an earlier hop; then the
reference that was written for it is looked up in its place.
-/

namespace ArchiveRemap.Mixin

inductive Finding where
  /-- What a symbol stands for, for the reference map. -/
  | entry (symbol value : String)
  /-- The new name of a member of the mixin class. -/
  | rename (kind : MemberKind) (member : MemberRef) (name : String)
  | warning (warning : Warning)
  deriving DecidableEq, Repr

/-- What the symbols of one mixin class are resolved against. -/
structure Scope where
  className : String
  targets : List String
  existing : Option ClassEntries
  renamer : Renamer
  implicitWildcards : Bool

/-- A declaration and the class through which it was found. -/
structure Located where
  through : String
  member : MemberRef
  deriving DecidableEq, Repr

namespace Scope

def warn (scope : Scope) (label symbol : String) (kind : WarningReason) : Finding :=
  .warning ⟨scope.className, label, symbol, kind⟩

/-- The reference that an earlier hop wrote for a symbol. -/
def known? (scope : Scope) (symbol : String) : Option String :=
  scope.existing.bind fun entries => entries.get? symbol

/-- The owner in front of a reference, left out when the mixin has several targets. -/
def ownerMark (scope : Scope) (owner : String) : String :=
  if 1 < scope.targets.length then "" else "L" ++ scope.renamer.mapClass owner ++ ";"

/-! Looking members up. -/

/-- A lookup through one owner and its supertypes. -/
def lookup (scope : Scope) (query : MemberQuery) (mode : LookupMode) (owner : String) :
    Resolution Located :=
  match scope.renamer.hierarchy.resolve query owner true mode with
  | .found member => .found ⟨owner, member⟩
  | .ambiguous members => .ambiguous (members.map fun member => ⟨member.owner, member⟩)
  | .notFound => .notFound

/-- The first lookup that finds something, else the first that is ambiguous. -/
def firstFound (attempts : List (Resolution Located)) : Resolution Located :=
  match attempts.findSome? Resolution.found? with
  | some located => .found located
  | none =>
      match attempts.findSome? fun attempt =>
          match attempt with
          | .ambiguous candidates => some candidates
          | _ => none with
      | some candidates => .ambiguous candidates
      | none => .notFound

def trimStars (text : String) : String :=
  String.ofList (Text.trimEnd (· = '*') text.toList)

/-- The member that the reference of an earlier hop leads to. -/
def knownMember? (scope : Scope) (kind : MemberKind) (owners : List String)
    (symbol : String) : Option Located := do
  let text ← scope.known? symbol
  let reference := match kind with
    | .method => WrittenMember.ofMethod (trimStars text)
    | .field => WrittenMember.ofField text
  let owners := match reference.owner with
    | some owner => [owner]
    | none => owners
  owners.findSome? fun owner =>
    (scope.lookup ⟨kind, reference.name, reference.desc⟩ .first owner).found?

/-- A member looked up through owners in their order, then through its known reference. -/
def find (scope : Scope) (query : MemberQuery) (mode : LookupMode) (owners : List String)
    (symbol : String) : Resolution Located :=
  match firstFound (owners.map (scope.lookup query mode)) with
  | .found located => .found located
  | failed =>
      match scope.knownMember? query.kind owners symbol with
      | some located => .found located
      | none => failed

/-- The warning that a failed lookup is worth. -/
def failure (scope : Scope) (label symbol : String) (failed : Resolution Located) :
    Finding :=
  scope.warn label symbol
    (match failed with
      | .ambiguous candidates =>
          .ambiguous (candidates.map fun located => located.member.text)
      | _ => .unresolved)

def newName (scope : Scope) (kind : MemberKind) (member : MemberRef) : String :=
  scope.renamer.mapRef kind member

/-! String targets of the mixin. -/

/-- The class that a string target is resolved to. -/
def targetClass? (scope : Scope) (name : String) : Option String :=
  let internal := ClassName.ofDotted name
  if scope.renamer.knows internal then some internal
  else (scope.known? name).filter scope.renamer.knows

def targetFinding (scope : Scope) (name : String) : Finding :=
  match scope.targetClass? name with
  | some found => .entry name (scope.renamer.mapClass found)
  | none => scope.warn "@Mixin" name .unresolved

/-! Soft tasks. -/

/-- Names of initialisers, which keep their names and need no reference. -/
def isInitializer (target : String) : Bool :=
  target = "<init>" || target = "<clinit>" || target = "<init>*"

def methodTargetFindings (scope : Scope) (label target : String) : List Finding :=
  if isInitializer target then []
  else
    let wildcard := Text.endsWith ['*'] target.toList
    let reference := WrittenMember.ofMethod (trimStars target)
    let foreign := match reference.owner with
      | some owner =>
          if owner ∈ scope.targets then []
          else [scope.warn label target .foreignOwner]
      | none => []
    let owners := match reference.owner with
      | some owner => [owner]
      | none => scope.targets
    let implicit := reference.desc.isNone && scope.implicitWildcards
    let mode := if wildcard || implicit then LookupMode.first else LookupMode.unique
    match scope.find ⟨.method, reference.name, reference.desc⟩ mode owners target with
    | .found located =>
        let name := scope.newName .method located.member
        let desc :=
          if wildcard && name ≠ "<clinit>" then "*"
          else scope.renamer.mapDesc located.member.desc
        foreign ++ [.entry target (scope.ownerMark located.through ++ name ++ desc)]
    | failed => foreign ++ [scope.failure label target failed]

/-- The reference for a member of a named owner. -/
def memberValue (scope : Scope) (kind : MemberKind) (owner : String) (member : MemberRef) :
    String :=
  let mark := match kind with
    | .field => ":"
    | .method => ""
  "L" ++ scope.renamer.mapClass owner ++ ";" ++ scope.newName kind member ++ mark ++
    scope.renamer.mapDesc member.desc

def pointMemberFinding (scope : Scope) (label target : String) (kind : MemberKind)
    (owner name desc : String) : Finding :=
  match scope.find ⟨kind, name, some desc⟩ .unique [owner] target with
  | .found located => .entry target (scope.memberValue kind owner located.member)
  | failed => scope.failure label target failed

/-- The class of a target without the `L` and `;` around it, and whether they were there. -/
def pointClass (target : String) : String × Bool :=
  match Descriptor.objectType? target with
  | some name => (ClassName.ofDotted name, true)
  | none => (ClassName.ofDotted target, false)

def pointClassFinding (scope : Scope) (label target : String) : Finding :=
  let (name, wrapped) := pointClass target
  if ClassName.isInternal name && scope.renamer.knows name then
    let mapped := scope.renamer.mapClass name
    .entry target (if wrapped then "L" ++ mapped ++ ";" else mapped)
  else
    match scope.known? target with
    | some known => .entry target known
    | none => scope.warn label target .unresolved

def pointFindings (scope : Scope) (label target : String) : List Finding :=
  match PointTarget.ofText target with
  | .member kind owner name desc =>
      [scope.pointMemberFinding label target kind owner name desc]
  | .descriptor =>
      let mapped := scope.renamer.mapDesc target
      if mapped = target then [] else [.entry target mapped]
  | .other => [scope.pointClassFinding label target]

/-- A class argument `class=name`; the reference is for the name. -/
def classArgumentFindings (scope : Scope) (label argument : String) : List Finding :=
  match Text.dropHead? "class=".toList argument.toList with
  | none => []
  | some rest =>
      let name := String.ofList rest
      let internal := ClassName.ofDotted name
      if scope.renamer.knows internal then [.entry name (scope.renamer.mapClass internal)]
      else
        match scope.known? name with
        | some known => [.entry name known]
        | none => [scope.warn label argument .unresolved]

/-- The type of the field that an accessor reads or writes. -/
def accessedType? (desc : String) : Option String :=
  if Text.startsWith "()".toList desc.toList then Descriptor.returnType? desc
  else Descriptor.parameters? desc

/-- The first name that is found, with its declaration, or the failure of the last name. -/
def findNamed (lookup : String → Resolution Located) :
    Resolution Located → List String → Except (Resolution Located) (String × Located)
  | last, [] => .error last
  | _, name :: rest =>
      match lookup name with
      | .found located => .ok (name, located)
      | failed => findNamed lookup failed rest

/-- A field name of one letter is also known by the capital letter. -/
def capitalEntry (name value : String) : List Finding :=
  match name.toList with
  | [c] => [.entry (String.ofList (Text.upperChar c)) value]
  | _ => []

def accessorFindings (scope : Scope) (names : List String) (desc : String) : List Finding :=
  let lookup (name : String) : Resolution Located :=
    scope.find ⟨.field, name, accessedType? desc⟩ .unique scope.targets name
  match findNamed lookup .notFound names with
  | .ok (name, located) =>
      let value := scope.newName .field located.member ++ ":" ++
        scope.renamer.mapDesc located.member.desc
      capitalEntry name value ++ [.entry name value]
  | .error failed => [scope.failure "@Accessor" (names.headD "") failed]

/-- The descriptor of the method that an invoker calls; constructors return nothing. -/
def invokedDesc (name desc : String) : String :=
  if name = "<init>" then
    match Descriptor.parameters? desc with
    | some parameters => "(" ++ parameters ++ ")V"
    | none => desc
  else desc

def invokerFindings (scope : Scope) (names : List String) (desc : String) : List Finding :=
  let lookup (name : String) : Resolution Located :=
    scope.find ⟨.method, name, some (invokedDesc name desc)⟩ .unique scope.targets name
  match findNamed lookup .notFound names with
  | .ok (name, located) =>
      let mapped := scope.newName .method located.member
      let mappedDesc :=
        if mapped = "<init>" then "" else scope.renamer.mapDesc located.member.desc
      [.entry name (mapped ++ mappedDesc)]
  | .error failed => [scope.failure "@Invoker" (names.headD "") failed]

def softTaskFindings (scope : Scope) : Task → List Finding
  | .mixinTargets _ => []
  | .methodTargets label targets =>
      targets.flatMap (scope.methodTargetFindings label)
  | .injectionPoint label target arguments =>
      (match target with
        | some target => scope.pointFindings label target
        | none => []) ++ arguments.flatMap (scope.classArgumentFindings label)
  | .accessor names desc => scope.accessorFindings names desc
  | .invoker names desc => scope.invokerFindings names desc
  | .shadow .. => []
  | .overwrite .. => []

def softFindings (scope : Scope) (tasks : List Task) : List Finding :=
  tasks.flatMap scope.softTaskFindings

/-! Hard tasks. -/

/-- A name without its marker, and the marker if the name carries it. -/
def dropMarker (marker name : String) : String × String :=
  match Text.dropHead? marker.toList name.toList with
  | some bare => (String.ofList bare, marker)
  | none => (name, "")

def shadowFinding (scope : Scope) (kind : MemberKind) (name desc marker : String) : Finding :=
  let (bare, found) := dropMarker marker name
  match scope.find ⟨kind, bare, some desc⟩ .unique scope.targets name with
  | .found located =>
      .rename kind ⟨scope.className, name, desc⟩ (found ++ scope.newName kind located.member)
  | failed => scope.failure "@Shadow" name failed

def overwriteFinding (scope : Scope) (name desc : String) : Finding :=
  match scope.find ⟨.method, name, some desc⟩ .unique scope.targets name with
  | .found located =>
      .rename .method ⟨scope.className, name, desc⟩ (scope.newName .method located.member)
  | failed => scope.failure "@Overwrite" name failed

def hardTaskFindings (scope : Scope) : Task → List Finding
  | .shadow kind name desc marker => [scope.shadowFinding kind name desc marker]
  | .overwrite name desc => [scope.overwriteFinding name desc]
  | _ => []

def hardFindings (scope : Scope) (tasks : List Task) : List Finding :=
  tasks.flatMap scope.hardTaskFindings

end Scope

/-! Target-extending tasks. -/

/-- Every string target in internal form joins the targets, unless it is there. -/
def extendTargets (targets : List String) : List Task → List String
  | [] => targets
  | .mixinTargets names :: rest =>
      extendTargets (names.foldl (fun done name =>
        let internal := ClassName.ofDotted name
        if internal ∈ done then done else done ++ [internal]) targets) rest
  | _ :: rest => extendTargets targets rest

def targetFindings (scope : Scope) (tasks : List Task) : List Finding :=
  tasks.flatMap fun task =>
    match task with
    | .mixinTargets names => names.map scope.targetFinding
    | _ => []

end ArchiveRemap.Mixin
