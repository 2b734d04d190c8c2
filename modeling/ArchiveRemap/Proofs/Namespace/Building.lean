import ArchiveRemap.Proofs.Namespace.Finish

/-!
Building accepts exactly the valid declarations: there are some, their names are distinct,
every dependency is declared, and no name depends on itself through others. An identifier
is the position of a name, and with distinct names the dependencies of a graph say the same
as the declarations. So the namespace that the check names lies on a cycle of names.
-/

namespace ArchiveRemap.Graph

open Relation (TransGen)

/-- The names of some declarations, as a graph keeps them. -/
def namesOf (declarations : List Declaration) : List String :=
  declarations.map fun declaration => normalize declaration.name

/-- A name is declared with another one among its dependencies. -/
def Declares (declarations : List Declaration) (owner name : String) : Prop :=
  ∃ declaration ∈ declarations, normalize declaration.name = owner ∧
    ∃ dependency ∈ declaration.dependencies, normalize dependency = name

/-- A name that depends on itself, directly or through others. -/
def OnCycle (declarations : List Declaration) (name : String) : Prop :=
  TransGen (Declares declarations) name name

/-- Every dependency is a name that is declared. -/
def Grounded (declarations : List Declaration) : Prop :=
  ∀ declaration ∈ declarations, ∀ dependency ∈ declaration.dependencies,
    normalize dependency ∈ namesOf declarations

/-! Names and positions. -/

theorem repeated?_eq_none_iff {seen names : List String} :
    repeated? seen names = none ↔ names.Nodup ∧ ∀ name ∈ names, name ∉ seen := by
  induction names generalizing seen with
  | nil => simp [repeated?]
  | cons name rest ih =>
      by_cases old : name ∈ seen
      · simp [repeated?, old]
      · simp only [repeated?, old, if_false, ih, List.nodup_cons, List.mem_cons, not_or,
          forall_eq_or_imp, not_false_iff, true_and]
        constructor
        · rintro ⟨distinct, fresh⟩
          exact ⟨⟨fun member => (fresh name member).1 rfl, distinct⟩,
            fun other member => (fresh other member).2⟩
        · rintro ⟨⟨absent, distinct⟩, fresh⟩
          exact ⟨distinct, fun other member =>
            ⟨fun same => absent (same ▸ member), fresh other member⟩⟩

theorem findIdx?_eq_some_iff {names : List String} (distinct : names.Nodup) {name : String}
    {id : Nat} : names.findIdx? (· = name) = some id ↔ names[id]? = some name := by
  rw [List.findIdx?_eq_some_iff_getElem, List.getElem?_eq_some_iff]
  constructor
  · rintro ⟨inside, hit, _⟩
    exact ⟨inside, by simpa using hit⟩
  · rintro ⟨inside, hit⟩
    refine ⟨inside, by simpa using hit, fun earlier before other => ?_⟩
    have same : names[earlier] = names[id] := by simpa [hit] using other
    have := distinct.getElem_inj_iff.mp same
    omega

/-! Resolving declarations. -/

theorem resolveDependencies_spec (names : List String) (owner : String) (found : List Nat)
    (dependencies : List String) :
    match resolveDependencies names owner found dependencies with
    | .ok ids => (∀ dependency ∈ dependencies, dependency ∈ names) ∧
        ∀ id, id ∈ ids ↔ id ∈ found ∨
          ∃ dependency ∈ dependencies, names.findIdx? (· = dependency) = some id
    | .error fault => ∃ dependency ∈ dependencies, dependency ∉ names ∧
        fault = .unknownDependency owner dependency := by
  induction dependencies generalizing found with
  | nil => simp [resolveDependencies]
  | cons first rest ih =>
      rw [resolveDependencies]
      cases place : names.findIdx? (· = first) with
      | none =>
          refine ⟨first, List.mem_cons_self, fun member => ?_, rfl⟩
          simpa using List.findIdx?_eq_none_iff.mp place first member
      | some id =>
          have known : first ∈ names := by
            obtain ⟨inside, hit, _⟩ := List.findIdx?_eq_some_iff_getElem.mp place
            have hit : names[id] = first := by simpa using hit
            exact hit ▸ List.getElem_mem inside
          have later := ih (if id ∈ found then found else found ++ [id])
          -- A dependency that is declared twice is listed once.
          have added (other : Nat) : other ∈ (if id ∈ found then found else found ++ [id]) ↔
              other ∈ found ∨ other = id := by
            split
            · rename_i member
              exact ⟨.inl, fun either => either.elim (fun old => old) fun same => same ▸ member⟩
            · simp
          simp only
          split at later
          · obtain ⟨grounded, members⟩ := later
            refine ⟨fun dependency member => ?_, fun other => ?_⟩
            · rcases List.mem_cons.mp member with rfl | behind
              · exact known
              · exact grounded dependency behind
            · rw [members, added]
              simp only [List.mem_cons, exists_eq_or_imp, place, Option.some.injEq, or_assoc,
                @eq_comm _ other id]
          · obtain ⟨dependency, member, unknown, rfl⟩ := later
            exact ⟨dependency, List.mem_cons_of_mem first member, unknown, rfl⟩

/-- A namespace made from a declaration, where `names` are all that are declared. -/
structure Resolved (names : List String) (declaration : Declaration) (space : Namespace) :
    Prop where
  name : space.name = normalize declaration.name
  grounded : ∀ dependency ∈ declaration.dependencies, normalize dependency ∈ names
  dependencies : ∀ id, id ∈ space.dependencies ↔
    ∃ dependency ∈ declaration.dependencies,
      names.findIdx? (· = normalize dependency) = some id

theorem resolveAll_spec (names : List String) (declarations : List Declaration) :
    match resolveAll names declarations with
    | .ok namespaces => List.Forall₂ (Resolved names) declarations namespaces
    | .error fault => ∃ declaration ∈ declarations, ∃ dependency ∈ declaration.dependencies,
        normalize dependency ∉ names ∧
          fault = .unknownDependency (normalize declaration.name) (normalize dependency) := by
  induction declarations with
  | nil => exact .nil
  | cons declaration rest ih =>
      have own := resolveDependencies_spec names (normalize declaration.name) []
        (declaration.dependencies.map normalize)
      simp only [resolveAll, bind, Except.bind]
      cases first : resolveDependencies names (normalize declaration.name) []
          (declaration.dependencies.map normalize) with
      | error fault =>
          rw [first] at own
          obtain ⟨dependency, member, unknown, rfl⟩ := own
          obtain ⟨written, there, rfl⟩ := List.mem_map.mp member
          exact ⟨declaration, List.mem_cons_self, written, there, unknown, rfl⟩
      | ok ids =>
          rw [first] at own
          obtain ⟨grounded, members⟩ := own
          cases others : resolveAll names rest with
          | error fault =>
              rw [others] at ih
              obtain ⟨other, member, dependency, there, unknown, rfl⟩ := ih
              exact ⟨other, List.mem_cons_of_mem declaration member, dependency, there, unknown,
                rfl⟩
          | ok namespaces =>
              rw [others] at ih
              refine .cons ⟨rfl, fun dependency member => ?_, fun id => ?_⟩ ih
              · exact grounded _ (List.mem_map_of_mem member)
              · simp [members]

/-! A graph and the declarations it was made from. -/

/-- The namespaces of a graph are the declarations, one by one. -/
def MadeFrom (graph : Graph) (declarations : List Declaration) : Prop :=
  List.Forall₂ (Resolved (namesOf declarations)) declarations graph.namespaces

theorem exists_related {α β : Type} {related : α → β → Prop} {left : List α} {right : List β}
    (all : List.Forall₂ related left right) {place : Nat} {item : β}
    (there : right[place]? = some item) :
    ∃ other, left[place]? = some other ∧ related other item := by
  induction all generalizing place with
  | nil => simp at there
  | @cons first second _ _ here _ ih =>
      cases place with
      | zero =>
          cases there
          exact ⟨first, rfl, here⟩
      | succ place => exact ih (by simpa using there)

namespace MadeFrom

variable {graph : Graph} {declarations : List Declaration} {id other : Nat}

theorem map_name_eq (made : graph.MadeFrom declarations) :
    graph.namespaces.map (·.name) = namesOf declarations := by
  have named : List.Forall₂ (· = ·) (graph.namespaces.map (·.name)) (namesOf declarations) :=
    List.forall₂_map_left_iff.mpr (List.forall₂_map_right_iff.mpr
      (made.flip.imp fun _ _ resolved => resolved.name))
  rwa [List.forall₂_eq_eq_eq] at named

theorem mem_ids_iff (made : graph.MadeFrom declarations) :
    id ∈ graph.ids ↔ ∃ name, (namesOf declarations)[id]? = some name := by
  rw [← made.map_name_eq, ids, List.mem_range, size, ← Option.isSome_iff_exists]
  simp

theorem name_eq {name : String} (made : graph.MadeFrom declarations)
    (there : (namesOf declarations)[id]? = some name) : graph.name id = name := by
  rw [← made.map_name_eq, List.getElem?_map, Option.map_eq_some_iff] at there
  obtain ⟨space, found, rfl⟩ := there
  rw [Graph.name, get?, found]

theorem mem_dependencies (made : graph.MadeFrom declarations)
    (needed : other ∈ graph.dependencies id) :
    ∃ declaration, declarations[id]? = some declaration ∧
      ∃ dependency ∈ declaration.dependencies,
        (namesOf declarations).findIdx? (· = normalize dependency) = some other := by
  cases place : graph.get? id with
  | none =>
      rw [dependencies, place] at needed
      exact absurd needed List.not_mem_nil
  | some space =>
      rw [dependencies, place] at needed
      obtain ⟨declaration, there, resolved⟩ := exists_related made place
      exact ⟨declaration, there, (resolved.dependencies other).mp needed⟩

theorem closed (made : graph.MadeFrom declarations) :
    ∀ id, ∀ dependency ∈ graph.dependencies id, dependency ∈ graph.ids := by
  intro id other needed
  obtain ⟨_, _, dependency, _, place⟩ := made.mem_dependencies needed
  obtain ⟨inside, _, _⟩ := List.findIdx?_eq_some_iff_getElem.mp place
  exact made.mem_ids_iff.mpr ⟨_, List.getElem?_eq_getElem inside⟩

variable (distinct : (namesOf declarations).Nodup)

include distinct

/-- With distinct names, the graph depends as the declarations do. -/
theorem mem_dependencies_iff (made : graph.MadeFrom declarations) :
    other ∈ graph.dependencies id ↔ ∃ owner name, (namesOf declarations)[id]? = some owner ∧
      (namesOf declarations)[other]? = some name ∧ Declares declarations owner name := by
  constructor
  · intro needed
    obtain ⟨declaration, there, dependency, member, place⟩ := made.mem_dependencies needed
    refine ⟨normalize declaration.name, normalize dependency, ?_,
      (findIdx?_eq_some_iff distinct).mp place, declaration, List.mem_of_getElem? there, rfl,
      dependency, member, rfl⟩
    rw [namesOf, List.getElem?_map, there, Option.map_some]
  · rintro ⟨_, _, here, there, declaration, member, rfl, dependency, written, rfl⟩
    obtain ⟨place, declared⟩ := List.mem_iff_getElem?.mp member
    have named : (namesOf declarations)[place]? = some (normalize declaration.name) := by
      rw [namesOf, List.getElem?_map, declared, Option.map_some]
    have same : place = id :=
      (List.getElem?_inj (List.getElem?_eq_some_iff.mp named).1 distinct).mp
        (named.trans here.symm)
    subst same
    obtain ⟨space, found, resolved⟩ := exists_related made.flip declared
    rw [dependencies, get?, found]
    exact (resolved.dependencies other).mpr
      ⟨dependency, written, (findIdx?_eq_some_iff distinct).mpr there⟩

theorem declares_of_reaches (made : graph.MadeFrom declarations)
    (reaches : Reaches graph.dependencies id other) :
    ∃ owner name, (namesOf declarations)[id]? = some owner ∧
      (namesOf declarations)[other]? = some name ∧ TransGen (Declares declarations) owner name := by
  induction reaches with
  | single needed =>
      obtain ⟨owner, name, here, there, declared⟩ := (made.mem_dependencies_iff distinct).mp needed
      exact ⟨owner, name, here, there, .single declared⟩
  | tail _ needed ih =>
      obtain ⟨owner, middle, here, between, chain⟩ := ih
      obtain ⟨name, last, again, there, declared⟩ :=
        (made.mem_dependencies_iff distinct).mp needed
      cases between.symm.trans again
      exact ⟨owner, last, here, there, chain.tail declared⟩

theorem reaches_of_declares (made : graph.MadeFrom declarations)
    (grounded : Grounded declarations) {owner name : String}
    (chain : TransGen (Declares declarations) owner name) :
    ∃ id other, (namesOf declarations)[id]? = some owner ∧
      (namesOf declarations)[other]? = some name ∧ Reaches graph.dependencies id other := by
  have placed {name : String} (member : name ∈ namesOf declarations) :
      ∃ id, (namesOf declarations)[id]? = some name := List.mem_iff_getElem?.mp member
  have declared {owner name : String} (step : Declares declarations owner name) :
      name ∈ namesOf declarations := by
    obtain ⟨declaration, member, _, dependency, written, rfl⟩ := step
    exact grounded declaration member dependency written
  induction chain with
  | @single name step =>
      obtain ⟨declaration, member, rfl, rest⟩ := step
      obtain ⟨id, here⟩ := placed (List.mem_map_of_mem member)
      have step : Declares declarations (normalize declaration.name) name :=
        ⟨declaration, member, rfl, rest⟩
      obtain ⟨other, there⟩ := placed (declared step)
      exact ⟨id, other, here, there,
        .single ((made.mem_dependencies_iff distinct).mpr ⟨_, _, here, there, step⟩)⟩
  | @tail middle name _ step ih =>
      obtain ⟨id, between, here, across, reaches⟩ := ih
      obtain ⟨other, there⟩ := placed (declared step)
      exact ⟨id, other, here, there, reaches.tail
        ((made.mem_dependencies_iff distinct).mpr ⟨_, _, across, there, step⟩)⟩

theorem onCycle_of_reaches (made : graph.MadeFrom declarations)
    (reaches : Reaches graph.dependencies id id) : OnCycle declarations (graph.name id) := by
  obtain ⟨owner, name, here, there, chain⟩ := made.declares_of_reaches distinct reaches
  cases here.symm.trans there
  rwa [OnCycle, made.name_eq here]

theorem exists_reaches_of_onCycle (made : graph.MadeFrom declarations)
    (grounded : Grounded declarations) {name : String} (cycle : OnCycle declarations name) :
    ∃ id, Reaches graph.dependencies id id := by
  obtain ⟨id, other, here, there, reaches⟩ := made.reaches_of_declares distinct grounded cycle
  have same : id = other :=
    (List.getElem?_inj (List.getElem?_eq_some_iff.mp here).1 distinct).mp (here.trans there.symm)
  exact ⟨id, same ▸ reaches⟩

end MadeFrom

/-! Building. -/

theorem grounded_of_madeFrom {graph : Graph} {declarations : List Declaration}
    (made : graph.MadeFrom declarations) : Grounded declarations := by
  intro declaration member
  obtain ⟨place, declared⟩ := List.mem_iff_getElem?.mp member
  obtain ⟨_, _, resolved⟩ := exists_related made.flip declared
  exact resolved.grounded

theorem build_of_repeated {declarations : List Declaration} {name : String}
    (twice : repeated? [] (namesOf declarations) = some name) :
    build declarations = .error (.duplicateNamespace name) := by
  rw [namesOf] at twice
  simp only [build, twice]

theorem build_of_distinct {declarations : List Declaration}
    (once : repeated? [] (namesOf declarations) = none) :
    build declarations =
      match resolveAll (namesOf declarations) declarations with
      | .error fault => .error fault
      | .ok namespaces =>
          match onCycle? ⟨namespaces⟩ with
          | some id => .error (.cyclicDependency (name ⟨namespaces⟩ id))
          | none =>
              match root? ⟨namespaces⟩ with
              | some _ => .ok ⟨namespaces⟩
              | none => .error .missingRoot := by
  rw [namesOf] at once
  simp only [build, once, bind, Except.bind, namesOf]
  cases resolveAll (declarations.map fun declaration => normalize declaration.name)
      declarations with
  | error fault => rfl
  | ok namespaces =>
      cases onCycle? ⟨namespaces⟩ with
      | some id => rfl
      | none => cases root? ⟨namespaces⟩ <;> rfl

/-- The ways in which building ends, in the order in which they are checked. -/
theorem build_spec (declarations : List Declaration) :
    match build declarations with
    | .ok graph => graph.MadeFrom declarations ∧ declarations ≠ [] ∧
        (namesOf declarations).Nodup ∧ ∀ id, ¬ Reaches graph.dependencies id id
    | .error (.duplicateNamespace _) => ¬ (namesOf declarations).Nodup
    | .error (.unknownDependency _ _) => ¬ Grounded declarations
    | .error (.cyclicDependency name) => (namesOf declarations).Nodup ∧
        Grounded declarations ∧ OnCycle declarations name
    | .error fault => fault = .missingRoot ∧ declarations = [] := by
  have resolving := resolveAll_spec (namesOf declarations) declarations
  cases twice : repeated? [] (namesOf declarations) with
  | some name =>
      rw [build_of_repeated twice]
      intro distinct
      rw [repeated?_eq_none_iff.mpr ⟨distinct, by simp⟩] at twice
      cases twice
  | none =>
      have distinct := (repeated?_eq_none_iff.mp twice).1
      rw [build_of_distinct twice]
      cases resolved : resolveAll (namesOf declarations) declarations with
      | error fault =>
          rw [resolved] at resolving
          obtain ⟨declaration, member, dependency, written, unknown, rfl⟩ := resolving
          exact fun grounded => unknown (grounded declaration member dependency written)
      | ok namespaces =>
          rw [resolved] at resolving
          have made : (⟨namespaces⟩ : Graph).MadeFrom declarations := resolving
          have checked := onCycle?_spec made.closed
          cases cycle : onCycle? ⟨namespaces⟩ with
          | some id =>
              rw [cycle] at checked
              simp only [cycle]
              exact ⟨distinct, grounded_of_madeFrom made, made.onCycle_of_reaches distinct checked⟩
          | none =>
              rw [cycle] at checked
              obtain ⟨acyclic, rooted⟩ := checked
              cases found : root? ⟨namespaces⟩ with
              | some root =>
                  simp only [cycle, found]
                  refine ⟨made, ?_, distinct, acyclic⟩
                  rintro rfl
                  cases made
                  cases found
              | none =>
                  simp only [cycle, found, true_and]
                  -- Without cycles there is a root wherever there is a namespace.
                  have nothing : ids ⟨namespaces⟩ = [] := by
                    by_contra inhabited
                    obtain ⟨root, there⟩ := rooted inhabited
                    rw [found] at there
                    cases there
                  rw [ids, List.range_eq_nil] at nothing
                  exact List.length_eq_zero_iff.mp (made.length_eq.trans nothing)

section Endings

variable {declarations : List Declaration} {name : String}

theorem onCycle_of_build (built : build declarations = .error (.cyclicDependency name)) :
    (namesOf declarations).Nodup ∧ Grounded declarations ∧ OnCycle declarations name := by
  have spec := build_spec declarations
  rwa [built] at spec

theorem madeFrom_of_build {graph : Graph} (built : build declarations = .ok graph) :
    graph.MadeFrom declarations ∧ declarations ≠ [] ∧ (namesOf declarations).Nodup ∧
      ∀ id, ¬ Reaches graph.dependencies id id := by
  have spec := build_spec declarations
  rwa [built] at spec

theorem acyclic_of_build {graph : Graph} (built : build declarations = .ok graph) :
    ¬ ∃ name, OnCycle declarations name := by
  obtain ⟨made, _, distinct, acyclic⟩ := madeFrom_of_build built
  rintro ⟨name, cycle⟩
  obtain ⟨id, reaches⟩ :=
    made.exists_reaches_of_onCycle distinct (grounded_of_madeFrom made) cycle
  exact acyclic id reaches

theorem exists_build_iff : (∃ graph, build declarations = .ok graph) ↔
    declarations ≠ [] ∧ (namesOf declarations).Nodup ∧ Grounded declarations ∧
      ¬ ∃ name, OnCycle declarations name := by
  constructor
  · rintro ⟨graph, built⟩
    obtain ⟨made, inhabited, distinct, _⟩ := madeFrom_of_build built
    exact ⟨inhabited, distinct, grounded_of_madeFrom made, acyclic_of_build built⟩
  · rintro ⟨inhabited, distinct, grounded, acyclic⟩
    have spec := build_spec declarations
    cases built : build declarations with
    | ok graph => exact ⟨graph, rfl⟩
    | error fault =>
        rw [built] at spec
        cases fault with
        | duplicateNamespace name => exact absurd distinct spec
        | unknownDependency owner name => exact absurd grounded spec
        | cyclicDependency name => exact absurd ⟨name, spec.2.2⟩ acyclic
        | _ => exact absurd spec.2 inhabited

theorem exists_cyclic_iff : (∃ name, build declarations = .error (.cyclicDependency name)) ↔
    (namesOf declarations).Nodup ∧ Grounded declarations ∧
      ∃ name, OnCycle declarations name := by
  have spec := build_spec declarations
  constructor
  · rintro ⟨name, built⟩
    obtain ⟨distinct, grounded, cycle⟩ := onCycle_of_build built
    exact ⟨distinct, grounded, name, cycle⟩
  · rintro ⟨distinct, grounded, name, cycle⟩
    cases built : build declarations with
    | ok graph => exact absurd ⟨name, cycle⟩ (acyclic_of_build built)
    | error fault =>
        rw [built] at spec
        cases fault with
        | duplicateNamespace name => exact absurd distinct spec
        | unknownDependency owner name => exact absurd grounded spec
        | cyclicDependency other => exact ⟨other, rfl⟩
        | _ =>
            obtain ⟨_, ⟨declaration, member, _⟩, _⟩ := Relation.TransGen.head'_iff.mp cycle
            exact absurd spec.2 (List.ne_nil_of_mem member)

theorem build_eq_missingRoot_iff : build declarations = .error .missingRoot ↔
    declarations = [] := by
  constructor
  · intro built
    have spec := build_spec declarations
    rw [built] at spec
    exact spec.2
  · rintro rfl
    rfl

end Endings

/-- Building accepts exactly the valid declarations. With distinct names and known
dependencies it reports a cycle exactly where there is one, and the name it reports lies on
one. A root is missing only where nothing is declared. -/
theorem build_accepts_exactly_valid (declarations : List Declaration) :
    ((∃ graph, build declarations = .ok graph) ↔
      declarations ≠ [] ∧ (namesOf declarations).Nodup ∧ Grounded declarations ∧
        ¬ ∃ name, OnCycle declarations name) ∧
    ((∃ name, build declarations = .error (.cyclicDependency name)) ↔
      (namesOf declarations).Nodup ∧ Grounded declarations ∧
        ∃ name, OnCycle declarations name) ∧
    (∀ name, build declarations = .error (.cyclicDependency name) →
      OnCycle declarations name) ∧
    (build declarations = .error .missingRoot ↔ declarations = []) :=
  ⟨exists_build_iff, exists_cyclic_iff, fun _ built => (onCycle_of_build built).2.2,
    build_eq_missingRoot_iff⟩

/-- Two namespaces that depend on each other, and a third one that only depends on them. -/
def mutualPair : Graph := ⟨[⟨"c", false, [1]⟩, ⟨"a", false, [2]⟩, ⟨"b", false, [1]⟩]⟩

theorem onCycle?_mutualPair : mutualPair.onCycle? = some 2 := by
  have ordered : finishOrder mutualPair.dependencies mutualPair.ids [] mutualPair.ids =
      .ok [0, 1, 2] := by cbv
  rw [onCycle?, ordered]
  decide +kernel

theorem build_accepts_exactly_valid_mutual :
    build [⟨"c", false, ["a"]⟩, ⟨"a", false, ["b"]⟩, ⟨"b", false, ["A "]⟩] =
        .error (.cyclicDependency "b") ∧
      OnCycle [⟨"c", false, ["a"]⟩, ⟨"a", false, ["b"]⟩, ⟨"b", false, ["A "]⟩] "b" := by
  have resolved : resolveAll
      (namesOf [⟨"c", false, ["a"]⟩, ⟨"a", false, ["b"]⟩, ⟨"b", false, ["A "]⟩])
      [⟨"c", false, ["a"]⟩, ⟨"a", false, ["b"]⟩, ⟨"b", false, ["A "]⟩] =
        .ok mutualPair.namespaces := rfl
  have refused : build [⟨"c", false, ["a"]⟩, ⟨"a", false, ["b"]⟩, ⟨"b", false, ["A "]⟩] =
      .error (.cyclicDependency "b") := by
    rw [build_of_distinct (by decide +kernel), resolved]
    have cyclic : onCycle? ⟨mutualPair.namespaces⟩ = some 2 := onCycle?_mutualPair
    simp only [cyclic]
    rfl
  exact ⟨refused, (build_accepts_exactly_valid _).2.2.1 "b" refused⟩

end ArchiveRemap.Graph
