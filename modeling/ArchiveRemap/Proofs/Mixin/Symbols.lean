import ArchiveRemap.Mixin.Hop

/-!
What a mixin class asks for, symbol by symbol, and what a single symbol comes to. The
findings of a task are those of its symbols. A symbol is settled by a reference under one of
its keys, by a new name of the member that carries it, or by a warning that names it; only a
descriptor that the table leaves alone is passed over in silence.
-/

namespace ArchiveRemap

/-- Whether a warning says that its symbol stands for nothing certain. -/
def WarningReason.isFailure : WarningReason → Bool
  | .unresolved => true
  | .ambiguous _ => true
  | _ => false

namespace Mixin

inductive Symbol where
  /-- A string target of the mixin. -/
  | mixinTarget (name : String)
  /-- A method that an injector names. -/
  | methodTarget (label target : String)
  /-- The target of an injection point, which may be the end of a slice. -/
  | pointTarget (label target : String)
  | classArgument (label argument : String)
  | accessor (names : List String) (desc : String)
  | invoker (names : List String) (desc : String)
  | shadow (kind : MemberKind) (name desc marker : String)
  | overwrite (name desc : String)
  deriving DecidableEq, Repr

namespace Symbol

def isHard : Symbol → Bool
  | .shadow .. => true
  | .overwrite .. => true
  | _ => false

/-- The annotation that a warning about the symbol gives. -/
def label : Symbol → String
  | .mixinTarget _ => "@Mixin"
  | .methodTarget label _ => label
  | .pointTarget label _ => label
  | .classArgument label _ => label
  | .accessor .. => "@Accessor"
  | .invoker .. => "@Invoker"
  | .shadow .. => "@Shadow"
  | .overwrite .. => "@Overwrite"

/-- The symbol as a warning names it; of several candidates it is the first. -/
def text : Symbol → String
  | .mixinTarget name => name
  | .methodTarget _ target => target
  | .pointTarget _ target => target
  | .classArgument _ argument => argument
  | .accessor names _ => names.headD ""
  | .invoker names _ => names.headD ""
  | .shadow _ name _ _ => name
  | .overwrite name _ => name

/-- The keys under which a reference for the symbol may stand. A class argument stands
without its prefix, a hard symbol never stands there. -/
def keys : Symbol → List String
  | .mixinTarget name => [name]
  | .methodTarget _ target => [target]
  | .pointTarget _ target => [target]
  | .classArgument _ argument =>
      ((Text.dropHead? "class=".toList argument.toList).map String.ofList).toList
  | .accessor names _ => names
  | .invoker names _ => names
  | .shadow .. => []
  | .overwrite .. => []

/-- Further keys of an accessor: its names of one letter in upper case. -/
def capitals : Symbol → List String
  | .accessor names _ => names.flatMap fun name =>
      match name.toList with
      | [c] => [String.ofList (Text.upperChar c)]
      | _ => []
  | _ => []

/-- The member of the mixin class that takes a new name from the symbol. -/
def member? (className : String) : Symbol → Option (MemberKind × MemberRef)
  | .shadow kind name desc _ => some (kind, ⟨className, name, desc⟩)
  | .overwrite name desc => some (.method, ⟨className, name, desc⟩)
  | _ => none

/-- The symbol is the target of an injection point that is a descriptor, and the table
leaves it as it is. -/
def Untouched (renamer : Renamer) (symbol : Symbol) : Prop :=
  ∃ label target, symbol = .pointTarget label target ∧ target.toList.head? = some '(' ∧
    renamer.mapDesc target = target

end Symbol

/-- The symbols of a task. The names of initialisers are none. -/
def Task.symbols : Task → List Symbol
  | .mixinTargets names => names.map .mixinTarget
  | .methodTargets label targets =>
      (targets.filter fun target => !Scope.isInitializer target).map (.methodTarget label)
  | .injectionPoint label target arguments =>
      target.toList.map (.pointTarget label) ++
        (arguments.filter isClassArgument).map (.classArgument label)
  | .accessor names desc => [.accessor names desc]
  | .invoker names desc => [.invoker names desc]
  | .shadow kind name desc marker => [.shadow kind name desc marker]
  | .overwrite name desc => [.overwrite name desc]

def MixinWork.symbols (work : MixinWork) : List Symbol := work.tasks.flatMap Task.symbols

/-- The ways in which a finding settles a symbol of a class. -/
inductive Settles (className : String) (symbol : Symbol) : Finding → Prop where
  | entry {key value : String} (ours : key ∈ symbol.keys) :
      Settles className symbol (.entry key value)
  | rename {kind : MemberKind} {member : MemberRef} {name : String}
      (ours : symbol.member? className = some (kind, member)) :
      Settles className symbol (.rename kind member name)
  | warning {reason : WarningReason} (failed : reason.isFailure = true) :
      Settles className symbol (.warning ⟨className, symbol.label, symbol.text, reason⟩)

/-- What is found for a symbol: something that settles it unless it is left untouched, and
no reference but for its keys. -/
structure Covers (className : String) (renamer : Renamer) (symbol : Symbol)
    (findings : List Finding) : Prop where
  settled : (∃ finding ∈ findings, Settles className symbol finding) ∨ symbol.Untouched renamer
  keyed : ∀ key value, Finding.entry key value ∈ findings →
    key ∈ symbol.keys ∨ key ∈ symbol.capitals

namespace Scope

variable (scope : Scope)

/-- What is found for one symbol. -/
def symbolFindings : Symbol → List Finding
  | .mixinTarget name => [scope.targetFinding name]
  | .methodTarget label target => scope.methodTargetFindings label target
  | .pointTarget label target => scope.pointFindings label target
  | .classArgument label argument => scope.classArgumentFindings label argument
  | .accessor names desc => scope.accessorFindings names desc
  | .invoker names desc => scope.invokerFindings names desc
  | .shadow kind name desc marker => [scope.shadowFinding kind name desc marker]
  | .overwrite name desc => [scope.overwriteFinding name desc]

/-! The findings of a task are those of its symbols. -/

theorem flatMap_filter_of_skipped {α β : Type} {keep : α → Bool} {f : α → List β}
    (skipped : ∀ a, keep a = false → f a = []) (items : List α) :
    (items.filter keep).flatMap f = items.flatMap f := by
  induction items with
  | nil => rfl
  | cons item rest ih =>
      cases kept : keep item with
      | true => simp [kept, ih]
      | false => simp [kept, ih, skipped item kept]

theorem methodTargetFindings_of_initializer {label target : String}
    (initializer : isInitializer target = true) :
    scope.methodTargetFindings label target = [] := by
  rw [methodTargetFindings, if_pos initializer]

theorem classArgumentFindings_of_other {label argument : String}
    (other : isClassArgument argument = false) :
    scope.classArgumentFindings label argument = [] := by
  rw [isClassArgument, Text.startsWith, Option.isSome_eq_false_iff, Option.isNone_iff_eq_none]
    at other
  rw [classArgumentFindings, other]

theorem targetFindings_eq (names : List String) :
    targetFindings scope [.mixinTargets names] =
      (Task.mixinTargets names).symbols.flatMap scope.symbolFindings := by
  simp [targetFindings, Task.symbols, symbolFindings, List.flatMap_map, ← List.map_eq_flatMap]

theorem hardTaskFindings_eq {task : Task} (hard : task.isHard = true) :
    scope.hardTaskFindings task = task.symbols.flatMap scope.symbolFindings := by
  cases task <;> simp_all [Task.isHard, hardTaskFindings, Task.symbols, symbolFindings]

theorem softTaskFindings_eq {task : Task} (later : task.runsFirst = false)
    (soft : task.isHard = false) :
    scope.softTaskFindings task = task.symbols.flatMap scope.symbolFindings := by
  cases task with
  | mixinTargets names => cases later
  | methodTargets label targets =>
      rw [softTaskFindings, Task.symbols, List.flatMap_map]
      refine (flatMap_filter_of_skipped (fun target skipped => ?_) targets).symm
      exact scope.methodTargetFindings_of_initializer (by simpa using skipped)
  | injectionPoint label target arguments =>
      simp only [softTaskFindings, Task.symbols, List.flatMap_append, List.flatMap_map]
      congr 1
      · cases target <;> simp [symbolFindings]
      · exact (flatMap_filter_of_skipped
          (fun argument => scope.classArgumentFindings_of_other) arguments).symm
  | accessor names desc => simp [softTaskFindings, Task.symbols, symbolFindings]
  | invoker names desc => simp [softTaskFindings, Task.symbols, symbolFindings]
  | shadow kind name desc marker => cases soft
  | overwrite name desc => cases soft

/-! What is found for each kind of symbol. -/

variable {scope}

theorem settles_failure (symbol : Symbol) (failed : Resolution Located) :
    Settles scope.className symbol (scope.failure symbol.label symbol.text failed) := by
  cases failed with
  | found located => exact .warning rfl
  | ambiguous candidates => exact .warning rfl
  | notFound => exact .warning rfl

theorem failure_ne_entry (label symbol key value : String) (failed : Resolution Located) :
    Finding.entry key value ≠ scope.failure label symbol failed := nofun

/-- A symbol whose findings are one finding, which settles it. -/
theorem Covers.single {symbol : Symbol} {finding : Finding}
    (settles : Settles scope.className symbol finding) :
    Covers scope.className scope.renamer symbol [finding] where
  settled := .inl ⟨finding, List.mem_singleton_self _, settles⟩
  keyed key value member := by
    rw [List.mem_singleton] at member
    subst member
    cases settles with
    | entry ours => exact .inl ours

theorem covers_mixinTarget (name : String) :
    Covers scope.className scope.renamer (.mixinTarget name) [scope.targetFinding name] := by
  refine Covers.single ?_
  unfold targetFinding
  split
  · exact .entry List.mem_cons_self
  · exact .warning rfl

/-- Findings without references may come first. -/
theorem Covers.append {symbol : Symbol} {front back : List Finding}
    (unkeyed : ∀ key value, Finding.entry key value ∉ front)
    (covers : Covers scope.className scope.renamer symbol back) :
    Covers scope.className scope.renamer symbol (front ++ back) where
  settled := covers.settled.imp_left fun ⟨finding, member, settles⟩ =>
    ⟨finding, List.mem_append_right _ member, settles⟩
  keyed key value member := by
    rcases List.mem_append.mp member with first | later
    · exact absurd first (unkeyed key value)
    · exact covers.keyed key value later

/-- A warning about a foreign owner is no reference. -/
theorem unkeyed_foreign (label target : String) (owner : Option String) (key value : String) :
    Finding.entry key value ∉ match owner with
      | some owner =>
          if owner ∈ scope.targets then [] else [scope.warn label target .foreignOwner]
      | none => [] := by
  cases owner with
  | none => exact List.not_mem_nil
  | some owner => by_cases ours : owner ∈ scope.targets <;> simp [ours, warn]

theorem covers_methodTarget (label : String) {target : String}
    (named : isInitializer target = false) :
    Covers scope.className scope.renamer (.methodTarget label target)
      (scope.methodTargetFindings label target) := by
  unfold methodTargetFindings
  rw [if_neg (by simp [named])]
  dsimp only
  generalize WrittenMember.ofMethod (trimStars target) = reference
  split
  · refine Covers.append ?_ (Covers.single (.entry List.mem_cons_self))
    exact unkeyed_foreign label target _
  · refine Covers.append ?_ (Covers.single (settles_failure (.methodTarget label target) _))
    exact unkeyed_foreign label target _

theorem memberAfter?_ne_descriptor (kind : MemberKind) (owner : List Char × List Char) :
    PointTarget.memberAfter? kind owner ≠ some .descriptor := by
  cases kind <;> simp [PointTarget.memberAfter?]

theorem member?_ne_descriptor (kind : MemberKind) (text : List Char) :
    PointTarget.member? kind text ≠ some .descriptor := by
  intro found
  rw [PointTarget.member?, Option.or_eq_some_iff] at found
  rcases found with first | ⟨_, second⟩
  · obtain ⟨_, _, made⟩ := Option.bind_eq_some_iff.mp first
    exact memberAfter?_ne_descriptor _ _ made
  · obtain ⟨_, _, made⟩ := Option.bind_eq_some_iff.mp second
    exact memberAfter?_ne_descriptor _ _ made

theorem head?_of_descriptor {target : String}
    (shape : PointTarget.ofText target = .descriptor) : target.toList.head? = some '(' := by
  unfold PointTarget.ofText at shape
  dsimp only at shape
  split at shape
  · rename_i found
    subst shape
    rcases Option.or_eq_some_iff.mp found with first | ⟨_, second⟩
    · exact absurd first (member?_ne_descriptor _ _)
    · exact absurd second (member?_ne_descriptor _ _)
  · split at shape
    · assumption
    · cases shape

theorem covers_pointTarget (label target : String) :
    Covers scope.className scope.renamer (.pointTarget label target)
      (scope.pointFindings label target) := by
  unfold pointFindings
  split
  · refine Covers.single ?_
    unfold pointMemberFinding
    split
    · exact .entry List.mem_cons_self
    · exact settles_failure (.pointTarget label target) _
  · rename_i shape
    by_cases same : scope.renamer.mapDesc target = target
    · simp only [same, if_true]
      exact ⟨.inr ⟨label, target, rfl, head?_of_descriptor shape, same⟩, nofun⟩
    · simp only [same, if_false]
      exact Covers.single (.entry List.mem_cons_self)
  · refine Covers.single ?_
    unfold pointClassFinding
    dsimp only
    split
    · exact .entry List.mem_cons_self
    · split
      · exact .entry List.mem_cons_self
      · exact .warning rfl

theorem covers_classArgument (label : String) {argument : String}
    (argued : isClassArgument argument = true) :
    Covers scope.className scope.renamer (.classArgument label argument)
      (scope.classArgumentFindings label argument) := by
  obtain ⟨rest, cut⟩ := Option.isSome_iff_exists.mp argued
  have ours : String.ofList rest ∈ (Symbol.classArgument label argument).keys := by
    rw [Symbol.keys, cut]
    exact List.mem_cons_self
  unfold classArgumentFindings
  rw [cut]
  dsimp only
  split
  · exact Covers.single (.entry ours)
  · split
    · exact Covers.single (.entry ours)
    · exact Covers.single (.warning rfl)

/-- A name that is found is one of the candidates. -/
theorem mem_of_findNamed {lookup : String → Resolution Located} {last : Resolution Located}
    {names : List String} {name : String} {located : Located}
    (found : findNamed lookup last names = .ok (name, located)) : name ∈ names := by
  induction names generalizing last with
  | nil => cases found
  | cons first rest ih =>
      unfold findNamed at found
      split at found
      · cases found
        exact List.mem_cons_self
      · exact List.mem_cons_of_mem _ (ih found)

theorem mem_capitals_of_capitalEntry {names : List String} {name desc : String}
    (candidate : name ∈ names) {shown key value : String}
    (member : Finding.entry key value ∈ capitalEntry name shown) :
    key ∈ (Symbol.accessor names desc).capitals := by
  refine List.mem_flatMap.mpr ⟨name, candidate, ?_⟩
  unfold capitalEntry at member
  generalize name.toList = letters at member ⊢
  match letters, member with
  | [c], member =>
      cases List.mem_singleton.mp member
      exact List.mem_singleton_self _
  | [], member => cases member
  | _ :: _ :: _, member => cases member

theorem covers_accessor (names : List String) (desc : String) :
    Covers scope.className scope.renamer (.accessor names desc)
      (scope.accessorFindings names desc) := by
  unfold accessorFindings
  dsimp only
  split
  · rename_i name located found
    have candidate := mem_of_findNamed found
    refine ⟨.inl ⟨_, List.mem_append_right _ List.mem_cons_self, .entry candidate⟩, ?_⟩
    intro key value member
    rcases List.mem_append.mp member with capital | own
    · exact .inr (mem_capitals_of_capitalEntry candidate capital)
    · cases List.mem_singleton.mp own
      exact .inl candidate
  · exact Covers.single (settles_failure (.accessor names desc) _)

theorem covers_invoker (names : List String) (desc : String) :
    Covers scope.className scope.renamer (.invoker names desc)
      (scope.invokerFindings names desc) := by
  unfold invokerFindings
  dsimp only
  split
  · rename_i name located found
    exact Covers.single (.entry (mem_of_findNamed found))
  · exact Covers.single (settles_failure (.invoker names desc) _)

theorem covers_shadow (kind : MemberKind) (name desc marker : String) :
    Covers scope.className scope.renamer (.shadow kind name desc marker)
      [scope.shadowFinding kind name desc marker] := by
  refine Covers.single ?_
  unfold shadowFinding
  dsimp only
  split
  · exact .rename rfl
  · exact settles_failure (.shadow kind name desc marker) _

theorem covers_overwrite (name desc : String) :
    Covers scope.className scope.renamer (.overwrite name desc)
      [scope.overwriteFinding name desc] := by
  refine Covers.single ?_
  unfold overwriteFinding
  split
  · exact .rename rfl
  · exact settles_failure (.overwrite name desc) _

/-- Everything that a task asks for is covered by what is found for it. -/
theorem covers_symbol {task : Task} {symbol : Symbol} (member : symbol ∈ task.symbols) :
    Covers scope.className scope.renamer symbol (scope.symbolFindings symbol) := by
  cases symbol with
  | mixinTarget name => exact covers_mixinTarget name
  | methodTarget label target =>
      refine covers_methodTarget label ?_
      cases task <;> simp_all [Task.symbols]
  | pointTarget label target => exact covers_pointTarget label target
  | classArgument label argument =>
      refine covers_classArgument label ?_
      cases task <;> simp_all [Task.symbols]
  | accessor names desc => exact covers_accessor names desc
  | invoker names desc => exact covers_invoker names desc
  | shadow kind name desc marker => exact covers_shadow kind name desc marker
  | overwrite name desc => exact covers_overwrite name desc

end Scope

end Mixin

end ArchiveRemap
